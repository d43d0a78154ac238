/-
# The example programs

The model of `examples/example_nomads_idx.cpp` and `examples/example_ecmwf_index.cpp`, which go
the whole way of the library: an index is downloaded and read, the first record of the 2 m
temperature in it is selected, its bytes are downloaded, and the value at a point is extracted
from them.  The two programs differ in their texts only, and in the reader of the index.
-/
import GribCpp.Api.Points
import GribCpp.Http.Download
import GribCpp.Models.Selector
import GribCpp.Workflow.NomadsMessages

namespace GribCpp.Workflow

open Api Decode Http Sidecar

/-! ## The programs -/

/-- What the two programs differ in. -/
structure Program where
  base : Bytes
  idxUrl : Bytes
  parse : Bytes → Result (List GribIndexEntry)
  sel : GribSelector
  lat : Double
  lon : Double
  fetchFailed : Bytes
  noRecord : Bytes
  recordLine : GribIndexEntry → Bytes

/-- What a program does: the requests that it makes, with the options they are sent with; what it
writes about the record; and the temperature in kelvin or what it writes to `std::cerr` before it
returns 1. -/
structure Outcome where
  sent : List (Option Options)
  out : Bytes
  result : Except Bytes Double

/-- The client of a program: `HttpClient(HttpClientConfig{})`. -/
def programClient (curl : Option Curl) : HttpClient where
  impl := some ⟨{}, curl⟩

/-- The second half of `main`, behind the selection of a record. -/
def Program.fetchRecord {H N : Type} (p : Program) (lib : EcCodes H N) (client : HttpClient)
    (idxSent : Option Options) (rec : GribIndexEntry) : Outcome :=
  let blob := client.getRange p.base rec.offset rec.length
  let report := Outcome.mk [idxSent, blob.sent] (p.recordLine rec)
  match blob.result with
  | .error e => report (.error (ascii "range fetch failed: " ++ e.message ++ ascii "\n"))
  | .ok response =>
    if response.statusCode ≠ 206 then
      report (.error (ascii "range fetch failed: HTTP " ++
        toStringInt response.statusCode.toInt ++ ascii "\n"))
    else
      match extractPoint lib response.body p.lat p.lon with
      | .error e => report (.error (ascii "extract failed: " ++ e.message ++ ascii "\n"))
      | .ok kelvin => report (.ok kelvin)

/-- `main`. -/
def Program.main {H N : Type} (p : Program) (lib : EcCodes H N) (curl : Option Curl) : Outcome :=
  let client := programClient curl
  let idx := client.get p.idxUrl
  let failed := Outcome.mk [idx.sent] [] (.error (p.fetchFailed ++ p.idxUrl ++ ascii ")\n"))
  match idx.result with
  | .error _ => failed
  | .ok index =>
    if index.statusCode ≠ 200 then failed
    else
      match p.parse index.body with
      | .error e => ⟨[idx.sent], [], .error (ascii "parse failed: " ++ e.message ++ ascii "\n")⟩
      | .ok entries =>
        match select entries p.sel with
        | [] => ⟨[idx.sent], [], .error p.noRecord⟩
        | rec :: _ => p.fetchRecord lib client idx.sent rec

/-- A day, as `std::strftime` writes it with `%Y%m%d` into an array, up to the NUL behind it. -/
structure Day where
  ymd : Bytes
  no_nul : 0 ∉ ymd

/-- ` offset=`, ` length=` and the numbers. -/
def offsetLine (rec : GribIndexEntry) : Bytes :=
  ascii "offset=" ++ toStringU64 rec.offset ++ ascii " length=" ++ toStringU64 rec.length ++
    ascii "\n"

/-- `examples/example_nomads_idx.cpp`; the point is New York City, at 40.7128 and -74.006. -/
def exampleNomadsIdx (day : Day) : Program :=
  let base := ascii "https://noaa-gfs-bdp-pds.s3.amazonaws.com/gfs." ++ day.ymd ++
    ascii "/00/atmos/gfs.t00z.pgrb2.0p25.f000"
  { base := base
    idxUrl := base ++ ascii ".idx"
    parse := parseNomadsIdx
    sel := { param := some (ascii "TMP"), level := some (ascii "2 m above ground") }
    lat := .finite (2864908607956399 * 2 ^ (-46 : ℤ))
      ⟨2864908607956399, -46, by decide, by decide, by decide, by norm_num⟩
    lon := .finite (-2603854640806101 * 2 ^ (-45 : ℤ))
      ⟨-2603854640806101, -45, by decide, by decide, by decide, by norm_num⟩
    fetchFailed := ascii "idx fetch failed ("
    noRecord := ascii "no TMP:2 m above ground record in idx\n"
    recordLine := fun rec => ascii "record " ++ Decimal.numeral rec.record.toNat ++ ascii " " ++
      offsetLine rec }

/-- `examples/example_ecmwf_index.cpp`; the point is London, at 51.5074 and -0.1278. -/
def exampleEcmwfIndex (read : Bytes → Option Generic) (toChars : Double → Bytes) (day : Day) :
    Program :=
  let base := ascii "https://data.ecmwf.int/forecasts/" ++ day.ymd ++
    ascii "/00z/ifs/0p25/oper/" ++ day.ymd ++ ascii "000000-0h-oper-fc.grib2"
  { base := base
    idxUrl := base.take (base.length - 6) ++ ascii ".index"
    parse := parseEcmwfIndex read toChars
    sel := { param := some (ascii "2t") }
    lat := .finite (7249022107713221 * 2 ^ (-47 : ℤ))
      ⟨7249022107713221, -47, by decide, by decide, by decide, by norm_num⟩
    lon := .finite (-4604480259023595 * 2 ^ (-55 : ℤ))
      ⟨-4604480259023595, -55, by decide, by decide, by decide, by norm_num⟩
    fetchFailed := ascii "index fetch failed ("
    noRecord := ascii "no 2t record in index\n"
    recordLine := offsetLine }

/-! ## Whatever the servers answer -/

/-- The index is there and is read, and `rec` is the first record of it that is selected. -/
def Program.Finds (p : Program) (client : HttpClient) (rec : GribIndexEntry) : Prop :=
  ∃ index before after, (client.get p.idxUrl).result = .ok index ∧ index.statusCode = 200 ∧
    p.parse index.body = .ok (before ++ rec :: after) ∧ Meets p.sel rec ∧
    ∀ e ∈ before, ¬ Meets p.sel e

/-- A response to the range request for a record, which it confirms to be what was asked for. -/
structure Program.Receives (p : Program) (client : HttpClient) (rec : GribIndexEntry)
    (blob : HttpResponse) : Prop where
  guard : ¬ RangeOverflows rec.offset rec.length
  received : (client.perform p.base (some (rangeText rec.offset rec.length))).result = .ok blob
  partial_content : blob.statusCode = 206
  requested : IsRequested rec.offset.toNat rec.length.toNat blob

section Main

variable {H N : Type} {p : Program} {lib : EcCodes H N} {curl : Option Curl}
  {rec : GribIndexEntry} {kelvin : Double}

/-- The program goes on with a record, or it has made one request and fails. -/
lemma main_cases (p : Program) (lib : EcCodes H N) (curl : Option Curl) :
    (∃ rec, p.Finds (programClient curl) rec ∧ p.main lib curl
        = p.fetchRecord lib (programClient curl) ((programClient curl).get p.idxUrl).sent rec) ∨
      ((∀ rec, ¬ p.Finds (programClient curl) rec) ∧ ∃ text,
        (p.main lib curl).sent = [((programClient curl).get p.idxUrl).sent] ∧
          (p.main lib curl).result = .error text) := by
  rw [Program.main]
  cases hidx : ((programClient curl).get p.idxUrl).result with
  | error e =>
    refine Or.inr ⟨?_, _, rfl, rfl⟩
    rintro rec ⟨index, -, -, hindex, -⟩
    exact absurd (hidx.symm.trans hindex) (by simp)
  | ok index =>
    have hindex : ∀ {rec}, p.Finds (programClient curl) rec → index.statusCode = 200 ∧
        ∃ before after, p.parse index.body = .ok (before ++ rec :: after) ∧ Meets p.sel rec ∧
          ∀ e ∈ before, ¬ Meets p.sel e := by
      rintro rec ⟨index', before, after, hindex', hstatus, hparse⟩
      obtain rfl := Except.ok.inj (hidx.symm.trans hindex')
      exact ⟨hstatus, before, after, hparse⟩
    by_cases hstatus : index.statusCode = 200
    · simp only [if_neg (not_not.mpr hstatus)]
      cases hparse : p.parse index.body with
      | error e =>
        refine Or.inr ⟨fun rec hfinds => ?_, _, rfl, rfl⟩
        obtain ⟨-, before, after, hok, -⟩ := hindex hfinds
        exact absurd (hparse.symm.trans hok) (by simp)
      | ok entries =>
        simp only
        cases hselect : select entries p.sel with
        | nil =>
          refine Or.inr ⟨fun rec hfinds => ?_, _, rfl, rfl⟩
          obtain ⟨-, before, after, hok, hmeets, -⟩ := hindex hfinds
          obtain rfl := Except.ok.inj (hparse.symm.trans hok)
          have hmem : rec ∈ select (before ++ rec :: after) p.sel :=
            mem_select.mpr ⟨by simp, hmeets⟩
          rw [hselect] at hmem
          exact absurd hmem List.not_mem_nil
        | cons rec rest =>
          obtain ⟨before, after, rfl, hmeets, hbefore⟩ :=
            head?_select_eq_some_iff.mp (congrArg List.head? hselect)
          exact Or.inl ⟨rec, ⟨index, before, after, hidx, hstatus, hparse, hmeets, hbefore⟩, rfl⟩
    · simp only [if_pos hstatus]
      exact Or.inr ⟨fun rec hfinds => hstatus (hindex hfinds).1, _, trivial, rfl⟩

/-- The second half of a program makes one request. -/
lemma sent_fetchRecord {client : HttpClient} {idxSent : Option Options} :
    (p.fetchRecord lib client idxSent rec).sent
      = [idxSent, (client.getRange p.base rec.offset rec.length).sent] := by
  rw [Program.fetchRecord]
  cases (client.getRange p.base rec.offset rec.length).result with
  | error e => rfl
  | ok response =>
    simp only
    split_ifs
    · rfl
    · cases extractPoint lib response.body p.lat p.lon <;> rfl

/-- The clients of the programs have no base of their own. -/
lemma requestUrl_default (path : Bytes) : requestUrl {} path = path := by
  rw [requestUrl]
  split <;> rfl

/-- There is only one record that a program goes on with. -/
lemma Program.Finds.unique {client : HttpClient} {rec' : GribIndexEntry}
    (h : p.Finds client rec) (h' : p.Finds client rec') : rec = rec' := by
  obtain ⟨index, before, after, hindex, -, hparse, hmeets, hbefore⟩ := h
  obtain ⟨index', before', after', hindex', -, hparse', hmeets', hbefore'⟩ := h'
  obtain rfl := Except.ok.inj (hindex.symm.trans hindex')
  have hsame := Except.ok.inj (hparse.symm.trans hparse')
  have hhead := head?_select_eq_some_iff.mpr ⟨before, after, rfl, hmeets, hbefore⟩
  have hhead' := head?_select_eq_some_iff.mpr ⟨before', after', hsame, hmeets', hbefore'⟩
  exact Option.some.inj (hhead.symm.trans hhead')

/-- The temperature comes from the response. -/
lemma fetchRecord_eq_ok_iff {client : HttpClient} {idxSent : Option Options} :
    (p.fetchRecord lib client idxSent rec).result = .ok kelvin ↔
      ∃ blob, p.Receives client rec blob ∧ extractPoint lib blob.body p.lat p.lon = .ok kelvin := by
  have hreceives : ∀ {blob}, p.Receives client rec blob ↔
      (client.getRange p.base rec.offset rec.length).result = .ok blob ∧
        blob.statusCode = 206 := by
    intro blob
    constructor
    · intro h
      refine ⟨?_, h.partial_content⟩
      rw [HttpClient.getRange, getRangeWith, if_neg h.guard]
      simp only [h.received]
      exact (checkResponse_eq_ok_iff h.guard).mpr
        ⟨rfl, Or.inr (Or.inr ⟨h.partial_content, h.requested⟩)⟩
    · rintro ⟨hok, hstatus⟩
      have hguard : ¬ RangeOverflows rec.offset rec.length := by
        intro hover
        rw [HttpClient.getRange, getRangeWith, if_pos hover] at hok
        exact absurd hok (by simp)
      obtain ⟨hperform, hcheck⟩ := perform_of_getRange hguard hok
      rcases ((checkResponse_eq_ok_iff hguard).mp hcheck).2 with h | h | ⟨-, h⟩
      · rw [hstatus] at h
        exact absurd h (by decide)
      · rw [hstatus] at h
        exact absurd h (by decide)
      · exact ⟨hguard, hperform, hstatus, h⟩
  simp only [hreceives]
  rw [Program.fetchRecord]
  cases hblob : (client.getRange p.base rec.offset rec.length).result with
  | error e => simp
  | ok response =>
    by_cases hstatus : response.statusCode = 206
    · cases hextract : extractPoint lib response.body p.lat p.lon <;> simp [hstatus, hextract]
    · simp [hstatus]

end Main

/-- **What the programs print has been asked for and confirmed.**  Whatever libcurl and the servers
do, a program prints a temperature if and only if the index is there with status 200 and is read, a
record of it is selected, the range of the first one is answered with status 206 by what was asked
for, and the extraction succeeds on these bytes.  The program asks for the whole index first; it
makes a second request only if a record is selected, for its range in the file, and never a
third. -/
theorem programs_print_confirmed {H N : Type} (p : Program) (lib : EcCodes H N)
    (curl : Option Curl) :
    (∀ kelvin, (p.main lib curl).result = .ok kelvin ↔
      ∃ rec blob, p.Finds (programClient curl) rec ∧ p.Receives (programClient curl) rec blob ∧
        extractPoint lib blob.body p.lat p.lon = .ok kelvin) ∧
    ((∃ first, (p.main lib curl).sent = [first] ∧ ∀ rec, ¬ p.Finds (programClient curl) rec) ∨
      ∃ first second rec, (p.main lib curl).sent = [first, second] ∧
        p.Finds (programClient curl) rec ∧
        ∀ opts, second = some opts →
          opts.url = p.base ∧ opts.range = some (rangeText rec.offset rec.length)) ∧
    ∀ opts, (p.main lib curl).sent.head? = some (some opts) →
      opts.url = p.idxUrl ∧ opts.range = none := by
  have hfirst : ∀ opts, ((programClient curl).get p.idxUrl).sent = some opts →
      opts.url = p.idxUrl ∧ opts.range = none := by
    intro opts hopts
    obtain ⟨config, _, hsend, rfl⟩ := sent_perform_iff.mp hopts
    have himpl := Option.some.inj hsend.impl_eq
    obtain rfl : config = {} := (congrArg Impl.config himpl).symm
    exact ⟨requestUrl_default p.idxUrl, rfl⟩
  rcases main_cases p lib curl with ⟨rec, hfinds, hmain⟩ | ⟨hno, text, hsent, hresult⟩
  · refine ⟨fun kelvin => ?_, Or.inr ?_, ?_⟩
    · rw [hmain, fetchRecord_eq_ok_iff]
      constructor
      · rintro ⟨blob, hreceives, hextract⟩
        exact ⟨rec, blob, hfinds, hreceives, hextract⟩
      · rintro ⟨rec', blob, hfinds', hreceives, hextract⟩
        obtain rfl := hfinds.unique hfinds'
        exact ⟨blob, hreceives, hextract⟩
    · refine ⟨_, _, rec, (congrArg Outcome.sent hmain).trans sent_fetchRecord, hfinds, ?_⟩
      intro opts hopts
      by_cases hguard : RangeOverflows rec.offset rec.length
      · rw [HttpClient.getRange, getRangeWith, if_pos hguard] at hopts
        exact absurd hopts (by simp)
      · obtain ⟨config, _, hsend, rfl⟩ := (sent_getRange_iff hguard).mp hopts
        have himpl := Option.some.inj hsend.impl_eq
        obtain rfl : config = {} := (congrArg Impl.config himpl).symm
        exact ⟨requestUrl_default p.base, rfl⟩
    · intro opts hopts
      rw [hmain, sent_fetchRecord] at hopts
      exact hfirst opts (Option.some.inj hopts)
  · refine ⟨fun kelvin => ?_, Or.inl ⟨_, hsent, hno⟩, fun opts hopts => ?_⟩
    · rw [hresult]
      refine iff_of_false (by simp) ?_
      rintro ⟨rec, blob, hfinds, -⟩
      exact hno rec hfinds
    · rw [hsent] at hopts
      exact hfirst opts (Option.some.inj hopts)

end GribCpp.Workflow
