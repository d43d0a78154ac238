/-
# The example programs in front of honest sites

A site that gives an index as a whole and a file in any range inside of it.  In front of such a
site the example programs print what they are meant to print: the value of the first message that
they look for, as ecCodes finds it in exactly the bytes of that message.
-/
import GribCpp.Workflow.Programs

namespace GribCpp.Workflow

open Api Decode Http Sidecar

/-! ## Honest sites -/

/-- libcurl in front of a site that gives the index of a program as a whole, and the file in any
range inside of it. -/
structure Site (p : Program) (index F : Bytes) (curl : Curl) : Prop where
  slist : curl.slistAppend = true
  setopt : ∀ opts, curl.setopt opts = true
  whole : AnswersWhole index (curl.easyPerform (requestOptions {} p.idxUrl none))
  serves : ∀ range first last, parseRange range = some (first, last) → first < F.length →
    first ≤ lastByte F.length last →
    Serves F first (lastByte F.length last)
      (curl.easyPerform (requestOptions {} p.base (some range)))

/-- What a program writes when there is no value at its point. -/
def extractFailed (e : Error) : Bytes := ascii "extract failed: " ++ e.message ++ ascii "\n"

section Served

variable {H N : Type} {p : Program} {index F : Bytes} {curl : Curl} {lib : EcCodes H N}
  {entries : List GribIndexEntry}

lemma Site.canSend (h : Site p index F curl) {path : Bytes} (hpath : 0 ∉ path)
    (range : Option Bytes) : (programClient (some curl)).CanSend path range {} curl := by
  refine ⟨rfl, ?_, by decide, by decide, h.slist, h.setopt _⟩
  rwa [requestUrl_default]

/-- The site gives an index that is read. -/
lemma get_site (h : Site p index F curl) (hidx : 0 ∉ p.idxUrl) (hindex : index.length ≤ 2 ^ 26) :
    ∃ response, (programClient (some curl)).get p.idxUrl
        = ⟨some (requestOptions {} p.idxUrl none), .ok response⟩ ∧
      response.statusCode = 200 ∧ response.body = index :=
  get_answered (hindex.trans_lt (by norm_num)) (h.canSend hidx none) h.whole (Or.inr hindex)

/-- Without a record that is selected, a program ends behind the index. -/
lemma main_no_record (h : Site p index F curl) (hidx : 0 ∉ p.idxUrl)
    (hindex : index.length ≤ 2 ^ 26) (hparse : p.parse index = .ok entries)
    (hselect : select entries p.sel = []) :
    p.main lib (some curl)
      = ⟨[some (requestOptions {} p.idxUrl none)], [], .error p.noRecord⟩ := by
  obtain ⟨response, hget, hstatus, hbody⟩ := get_site h hidx hindex
  rw [Program.main]
  simp only [hget, hstatus, hbody, hparse, hselect, ne_eq, not_true_eq_false, if_false]

/-- A program downloads the message of the first record that is selected, and finds the value at
its point. -/
lemma main_record (h : Site p index F curl) (hidx : 0 ∉ p.idxUrl) (hbase : 0 ∉ p.base)
    (hindex : index.length ≤ 2 ^ 26) (hF : F.length < 2 ^ 64)
    (hparse : p.parse index = .ok entries) {e : GribIndexEntry}
    (hselect : (select entries p.sel).head? = some e) (hguard : ¬ RangeOverflows e.offset e.length)
    (hoffset : e.offset.toNat < F.length) {m q : Bytes}
    (hbytes : m ++ q = (F.drop e.offset.toNat).take
      (if e.length.toNat = 0 then F.length - e.offset.toNat else e.length.toNat))
    (hm : IsMessage m) (hlimit : (m ++ q).length ≤ 2 ^ 26) :
    p.main lib (some curl)
      = ⟨[some (requestOptions {} p.idxUrl none),
          some (requestOptions {} p.base (some (rangeText e.offset e.length)))],
        p.recordLine e, (nearestOf lib p.lat p.lon m).mapError extractFailed⟩ := by
  obtain ⟨response, hget, hstatus, hbody⟩ := get_site h hidx hindex
  have hserved : ServedBy F (programClient (some curl)) p.base {} curl :=
    ⟨fun range => h.canSend hbase (some range), h.serves⟩
  obtain ⟨blob, hblob, hblobBody⟩ :=
    getRange_served hF hserved hguard hoffset hbytes (Or.inr hlimit)
  have hpartial := statusCode_of_served hserved hguard hoffset hblob
  have hsent := (sent_getRange_iff hguard).mpr ⟨_, _, h.canSend hbase _, rfl⟩
  -- the message is at the front of the answer
  have hextract : extractPoint lib blob.body p.lat p.lon = nearestOf lib p.lat p.lon m := by
    have hgap : ¬ ascii "GRIB" <:+: ([] : Bytes) := by decide
    rw [hblobBody]
    exact extractPoint_message lib hgap hm q p.lat p.lon
  obtain ⟨rest, hrest⟩ := List.head?_eq_some_iff.mp hselect
  rw [Program.main]
  simp only [hget, hstatus, hbody, hparse, hrest, Program.fetchRecord, hblob, hsent, hpartial,
    hextract, ne_eq, not_true_eq_false, if_false]
  cases nearestOf lib p.lat p.lon m <;> rfl

end Served

/-- A site that gives an index to requests without a range, and a file to the others. -/
def siteCurl (index F : Bytes) : Curl where
  slistAppend := true
  setopt _ := true
  strerror _ := []
  easyPerform opts :=
    match opts.range with
    | none => { events := [.body (whole index)], code := curleOk, status := some 200 }
    | some _ => (honestCurl F).easyPerform opts

section SiteCurl

variable {index F path : Bytes}

lemma answersWhole_siteCurl (F path : Bytes) (hindex : index.length < 2 ^ 64) :
    AnswersWhole index ((siteCurl index F).easyPerform (requestOptions {} path none)) := by
  refine ⟨rfl, rfl, ?_, ?_⟩
  · intro e he
    obtain rfl := List.mem_singleton.mp he
    exact whole_intact hindex
  · change bodyOf [.body (whole index)] = index
    simp [bodyOf, whole]

lemma servedBy_siteCurl (index : Bytes) (hF : F.length < 2 ^ 64) (hpath : 0 ∉ path) :
    ServedBy F (programClient (some (siteCurl index F))) path {} (siteCurl index F) := by
  have hserved : ServedBy F (programClient (some (honestCurl F))) path {} (honestCurl F) :=
    servedBy_honestCurl hF fun _ =>
      ⟨rfl, by rwa [requestUrl_default], by decide, by decide, rfl, rfl⟩
  refine ⟨fun _ => ⟨rfl, by rwa [requestUrl_default], by decide, by decide, rfl, rfl⟩, ?_⟩
  exact hserved.serves

lemma site_siteCurl {p : Program} (hbase : 0 ∉ p.base) (hindex : index.length < 2 ^ 64)
    (hF : F.length < 2 ^ 64) : Site p index F (siteCurl index F) :=
  ⟨rfl, fun _ => rfl, answersWhole_siteCurl F _ hindex,
    (servedBy_siteCurl index hF hbase).serves⟩

end SiteCurl

/-! ## The NOMADS program -/

/-- A record of the 2 m temperature, as the program looks for it. -/
def Wanted (r : Record) : Prop :=
  ascii "TMP" <:+: r.var.bytes ∧ ascii "2 m above ground" <:+: r.level.bytes

lemma meets_entry_iff {day : Day} {r : Record} {length : ℕ} :
    Meets (exampleNomadsIdx day).sel (r.entry length) ↔ Wanted r :=
  meets_param_level_iff

/-- What the program writes about a record. -/
lemma recordLine_entry (day : Day) (r : Record) {length : ℕ} (hlength : length < 2 ^ 64) :
    (exampleNomadsIdx day).recordLine (r.entry length)
      = ascii "record " ++ Decimal.numeral r.number ++ ascii " " ++
        (ascii "offset=" ++ Decimal.numeral r.offset ++ ascii " length=" ++
          Decimal.numeral length ++ ascii "\n") := by
  simp only [exampleNomadsIdx, offsetLine, toStringU64, Record.entry,
    UInt32.toNat_ofNat_of_lt' r.number_lt, UInt64.toNat_ofNat_of_lt' r.offset_lt,
    UInt64.toNat_ofNat_of_lt' hlength]

lemma Day.notMem_append (day : Day) {before after : Bytes} (hbefore : 0 ∉ before)
    (hafter : 0 ∉ after) : 0 ∉ before ++ day.ymd ++ after := by
  simp [hbefore, hafter, day.no_nul]

/-- **The NOMADS program prints the temperature of the first record it looks for.**  For every
file of messages with padding, every inventory of it and every site that gives both: if no record
is a temperature at 2 m, the program says so, behind the one request for the inventory.  Otherwise
it asks for the bytes of the first such record, which are those of its message and of the padding
behind it, and prints the value that ecCodes finds at the point in that message. -/
theorem exampleNomadsIdx_prints {H N : Type} (day : Day) (lib : EcCodes H N)
    (pieces : List (Bytes × Bytes)) (hm : ∀ x ∈ pieces, IsMessage x.1)
    (hF : (file pieces).length < 2 ^ 64) (lines : List (Line × Eol)) (last : Option Line)
    (hT : Describes (records lines last) pieces)
    (hindex : (inventory lines last).length ≤ 2 ^ 26) (curl : Curl)
    (hsite : Site (exampleNomadsIdx day) (inventory lines last) (file pieces) curl) :
    ((∀ r ∈ records lines last, ¬ Wanted r) →
      (exampleNomadsIdx day).main lib (some curl)
        = ⟨[some (requestOptions {} (exampleNomadsIdx day).idxUrl none)], [],
          .error (ascii "no TMP:2 m above ground record in idx\n")⟩) ∧
    ∀ (i : ℕ) (r : Record) (m q : Bytes), (records lines last)[i]? = some r →
      pieces[i]? = some (m, q) → Wanted r →
      (∀ j < i, ∀ r', (records lines last)[j]? = some r' → ¬ Wanted r') →
      (m ++ q).length ≤ 2 ^ 26 →
      ∃ o l, o = (file (pieces.take i)).length ∧
        l = (if i + 1 < pieces.length then (m ++ q).length else 0) ∧
        (exampleNomadsIdx day).main lib (some curl)
          = ⟨[some (requestOptions {} (exampleNomadsIdx day).idxUrl none),
              some (requestOptions {} (exampleNomadsIdx day).base
                (some (rangeText (UInt64.ofNat o) (UInt64.ofNat l))))],
            ascii "record " ++ Decimal.numeral (i + 1) ++ ascii " " ++
              (ascii "offset=" ++ Decimal.numeral o ++ ascii " length=" ++ Decimal.numeral l ++
                ascii "\n"),
            (nearestOf lib (exampleNomadsIdx day).lat (exampleNomadsIdx day).lon m).mapError
              extractFailed⟩ := by
  have hparse : (exampleNomadsIdx day).parse (inventory lines last)
      = .ok (entries (records lines last)) := by
    change parseNomadsIdx (inventory lines last) = _
    rw [parseNomadsIdx, collect_inventory]
    exact setLengths_records (hT.increasing hm)
  have hbase : 0 ∉ (exampleNomadsIdx day).base := day.notMem_append (by decide) (by decide)
  have hidx : 0 ∉ (exampleNomadsIdx day).idxUrl := by
    change 0 ∉ (exampleNomadsIdx day).base ++ ascii ".idx"
    rw [List.mem_append, not_or]
    exact ⟨hbase, by decide⟩
  set rs := records lines last with hrs
  refine ⟨fun hno => ?_, fun i r m q hr hmq hwanted hbefore hlimit => ?_⟩
  · refine main_no_record hsite hidx hindex hparse (List.eq_nil_iff_forall_not_mem.mpr ?_)
    intro e he
    obtain ⟨hmem, hmeets⟩ := mem_select.mp he
    obtain ⟨i, hi⟩ := List.getElem?_of_mem hmem
    rw [getElem?_entries] at hi
    obtain ⟨r, hr, rfl⟩ := Option.map_eq_some_iff.mp hi
    exact hno r (List.mem_of_getElem? hr) (meets_entry_iff.mp hmeets)
  · have hlen : i < rs.length := (List.getElem?_eq_some_iff.mp hr).1
    obtain rfl : rs[i] = r := (List.getElem?_eq_some_iff.mp hr).2
    have he := @getElem?_entries rs i
    rw [hr, Option.map_some, hT.span hlen hmq] at he
    have hfirst : ∀ j < i, ∀ e', (entries rs)[j]? = some e' →
        ¬ Meets (exampleNomadsIdx day).sel e' := by
      intro j hj e' he' hmeets
      rw [getElem?_entries] at he'
      obtain ⟨r', hr', rfl⟩ := Option.map_eq_some_iff.mp he'
      exact hbefore j hj r' hr' (meets_entry_iff.mp hmeets)
    have hselect := head?_select_of_getElem? he (meets_entry_iff.mpr hwanted) hfirst
    obtain ⟨hguard, hoffset, hbytes⟩ := hT.entry hm hF hmq he
    refine ⟨_, _, rfl, rfl, ?_⟩
    rw [main_record hsite hidx hbase hindex hF hparse hselect hguard hoffset hbytes
      (hm _ (List.mem_of_getElem? hmq)) hlimit]
    have hshort : (if i + 1 < pieces.length then m.length + q.length else 0) < 2 ^ 64 := by
      rw [List.length_append] at hlimit
      split <;> omega
    rw [recordLine_entry day _ hshort, hT.number i hlen, hT.offset i hlen, List.length_append,
      Record.entry, hT.offset i hlen]

/-- A day of May. -/
def someDay : Day := ⟨ascii "20260517", by decide⟩

/-- The first of the two messages has its temperature printed. -/
theorem exampleNomadsIdx_prints_two :
    (exampleNomadsIdx someDay).main lengthAsNumber
        (some (siteCurl (inventory twoLines none) (file twoPieces)))
      = ⟨[some (requestOptions {} (exampleNomadsIdx someDay).idxUrl none),
          some (requestOptions {} (exampleNomadsIdx someDay).base (some (rangeText 0 14)))],
        ascii "record 1 offset=0 length=14\n", .ok .negZero⟩ := by
  have hsite : Site (exampleNomadsIdx someDay) (inventory twoLines none) (file twoPieces) _ :=
    site_siteCurl (by decide) (by decide) (by decide)
  obtain ⟨o, l, rfl, rfl, hmain⟩ := (exampleNomadsIdx_prints someDay lengthAsNumber twoPieces
    (by decide) (by decide) twoLines none describes_two (by decide) _ hsite).2 0
    (twoRecord 0) shortest [0, 0] rfl rfl ⟨by decide, by decide⟩ (by simp) (by decide)
  have hfound : nearestOf lengthAsNumber (exampleNomadsIdx someDay).lat
      (exampleNomadsIdx someDay).lon shortest = .ok .negZero := by
    have hvalid : validCoordinates (exampleNomadsIdx someDay).lat
        (exampleNomadsIdx someDay).lon = true := by
      norm_num [validCoordinates, exampleNomadsIdx, Double.value]
    simp [nearestOf, lengthAsNumber, GribHandle.nearestValue, GribHandle.ofHandle, hvalid,
      foundValue, bestPoint]
  rw [hmain, hfound]
  rfl

/-! ## The ECMWF program -/

/-- **The ECMWF program prints the temperature of the first entry it looks for.**  For every index
that is read and every site that gives it and a file: if no entry has the parameter, the program
says so, behind the one request for the index.  Otherwise, when the first such entry states where a
message of the file is, the program asks for exactly the bytes of that message, and prints the
value that ecCodes finds at the point in it. -/
theorem exampleEcmwfIndex_prints {H N : Type} (read : Bytes → Option Generic)
    (toChars : Double → Bytes) (day : Day) (lib : EcCodes H N) (index F : Bytes)
    (hF : F.length < 2 ^ 64) (es : List GribIndexEntry)
    (hparse : parseEcmwfIndex read toChars index = .ok es) (hindex : index.length ≤ 2 ^ 26)
    (curl : Curl) (hsite : Site (exampleEcmwfIndex read toChars day) index F curl) :
    ((∀ e ∈ es, ¬ ascii "2t" <:+: e.param) →
      (exampleEcmwfIndex read toChars day).main lib (some curl)
        = ⟨[some (requestOptions {} (exampleEcmwfIndex read toChars day).idxUrl none)], [],
          .error (ascii "no 2t record in index\n")⟩) ∧
    ∀ (i : ℕ) (e : GribIndexEntry) (m : Bytes), es[i]? = some e → ascii "2t" <:+: e.param →
      (∀ j < i, ∀ e', es[j]? = some e' → ¬ ascii "2t" <:+: e'.param) →
      IsMessage m → m <+: F.drop e.offset.toNat → e.length.toNat = m.length →
      m.length ≤ 2 ^ 26 →
      (∀ x, Selects (rangeText e.offset e.length) x ↔
        e.offset.toNat ≤ x ∧ x < e.offset.toNat + m.length) ∧
      (exampleEcmwfIndex read toChars day).main lib (some curl)
        = ⟨[some (requestOptions {} (exampleEcmwfIndex read toChars day).idxUrl none),
            some (requestOptions {} (exampleEcmwfIndex read toChars day).base
              (some (rangeText e.offset e.length)))],
          offsetLine e,
          (nearestOf lib (exampleEcmwfIndex read toChars day).lat
            (exampleEcmwfIndex read toChars day).lon m).mapError extractFailed⟩ := by
  have hbase : 0 ∉ (exampleEcmwfIndex read toChars day).base := by
    have hfront : 0 ∉ ascii "https://data.ecmwf.int/forecasts/" ++ day.ymd ++
        ascii "/00z/ifs/0p25/oper/" := day.notMem_append (by decide) (by decide)
    simp only [exampleEcmwfIndex, List.mem_append, not_or] at hfront ⊢
    exact ⟨⟨hfront, day.no_nul⟩, by decide⟩
  have hidx : 0 ∉ (exampleEcmwfIndex read toChars day).idxUrl := by
    change 0 ∉ List.take _ (exampleEcmwfIndex read toChars day).base ++ ascii ".index"
    rw [List.mem_append, not_or]
    exact ⟨fun hmem => hbase (List.mem_of_mem_take hmem), by decide⟩
  have hmeets : ∀ e : GribIndexEntry, Meets (exampleEcmwfIndex read toChars day).sel e ↔
      ascii "2t" <:+: e.param := fun e => meets_param_iff
  refine ⟨fun hno => ?_, fun i e m he hparam hbefore hm hpre hlen hlimit => ?_⟩
  · refine main_no_record hsite hidx hindex hparse (List.eq_nil_iff_forall_not_mem.mpr ?_)
    intro e he
    obtain ⟨hmem, hmeets'⟩ := mem_select.mp he
    exact hno e hmem ((hmeets e).mp hmeets')
  · have hpos := hm.le_length
    have hle := hpre.length_le
    rw [List.length_drop] at hle
    have hguard : ¬ RangeOverflows e.offset e.length := by
      rw [rangeOverflows_iff]
      omega
    have hbytes : m ++ [] = (F.drop e.offset.toNat).take
        (if e.length.toNat = 0 then F.length - e.offset.toNat else e.length.toNat) := by
      rw [if_neg (by omega), hlen, List.append_nil]
      exact List.prefix_iff_eq_take.mp hpre
    have hselect := head?_select_of_getElem? he ((hmeets e).mpr hparam)
      fun j hj e' he' h => hbefore j hj e' he' ((hmeets e').mp h)
    refine ⟨fun x => ?_, ?_⟩
    · rw [selects_rangeText_iff hguard]
      omega
    · rw [main_record hsite hidx hbase hindex hF hparse hselect hguard (by omega) hbytes hm
        (by rwa [List.append_nil])]
      rfl

/-- An index of one line, for the second of two messages. -/
def messageLine : Bytes := ascii "\x7b\"param\":\"2t\",\"_offset\":14,\"_length\":12\x7d"

/-- A reader of that line. -/
def readMessageLine (line : Bytes) : Option Generic :=
  if line = messageLine then
    some (.object [(ascii "param", .string (ascii "2t")), (ascii "_offset", .u64 14),
      (ascii "_length", .u64 12)])
  else none

/-- The entry of that line. -/
def messageEntry : GribIndexEntry :=
  { param := ascii "2t", raw := messageLine, offset := 14, length := 12 }

lemma parse_messageLine (toChars : Double → Bytes) :
    parseEcmwfIndex readMessageLine toChars messageLine = .ok [messageEntry] := by
  have hlines : indexLines messageLine = [messageLine] := by
    rw [indexLines, split_eq, List.splitOn_eq_singleton (by decide)]
    decide
  rw [parseEcmwfIndex_eq_ok_iff, hlines]
  exact List.Forall₂.cons rfl List.Forall₂.nil

/-- The second message has its temperature printed. -/
theorem exampleEcmwfIndex_prints_second :
    (exampleEcmwfIndex readMessageLine (fun _ => []) someDay).main lengthAsNumber
        (some (siteCurl messageLine (file twoPieces)))
      = ⟨[some (requestOptions {}
            (exampleEcmwfIndex readMessageLine (fun _ => []) someDay).idxUrl none),
          some (requestOptions {} (exampleEcmwfIndex readMessageLine (fun _ => []) someDay).base
            (some (rangeText 14 12)))],
        ascii "offset=14 length=12\n", .ok .negZero⟩ := by
  set p := exampleEcmwfIndex readMessageLine (fun _ => []) someDay with hp
  have hsite : Site p messageLine (file twoPieces) _ :=
    site_siteCurl (by decide) (by decide) (by decide)
  obtain ⟨-, hmain⟩ := (exampleEcmwfIndex_prints readMessageLine (fun _ => []) someDay
    lengthAsNumber messageLine (file twoPieces) (by decide) _ (parse_messageLine _) (by decide) _
    hsite).2 0 messageEntry shortest rfl (by decide) (by simp) isMessage_shortest (by decide) rfl
    (by decide)
  have hfound : nearestOf lengthAsNumber p.lat p.lon shortest = .ok .negZero := by
    have hvalid : validCoordinates p.lat p.lon = true := by
      norm_num [hp, validCoordinates, exampleEcmwfIndex, Double.value]
    simp [nearestOf, lengthAsNumber, GribHandle.nearestValue, GribHandle.ofHandle, hvalid,
      foundValue, bestPoint]
  rw [hmain, hfound]
  rfl

end GribCpp.Workflow
