/-
# The headers of the final response

A transfer may deliver the headers of several responses, those of redirects and interim ones
before the last.  A status line drops what has been stored before it, so that only the fields
of the last response stay, with their names as they are and their values without the blanks
around them.  A colon in the last status line, however, makes a field of it.
-/
import GribCpp.Http.Transfer

namespace GribCpp.Http

open Decimal

/-! ## Stripped values -/

/-- `value` is what is left of `raw` without the blanks at its ends. -/
structure IsStripped (raw value : Bytes) : Prop where
  split : ∃ l r, raw = l ++ (value ++ r) ∧ (∀ c ∈ l, isBlank c = true) ∧
    ∀ c ∈ r, isBlank c = true
  head : ∀ c ∈ value.head?, isBlank c = false
  last : ∀ c ∈ value.getLast?, isBlank c = false

section Strip

variable {raw value s : Bytes}

/-- The first byte behind the blanks is none. -/
lemma isBlank_head?_dropWhile {c : UInt8} (h : c ∈ (s.dropWhile isBlank).head?) :
    isBlank c = false := by
  have hnot := List.head?_dropWhile_not isBlank s
  rw [Option.mem_def.mp h] at hnot
  simpa using hnot

lemma isStripped_trim (raw : Bytes) : IsStripped raw (trim raw) := by
  -- what is cut off in front, and then behind
  have hsplit : raw.dropWhile isBlank
      = trim raw ++ ((raw.dropWhile isBlank).reverse.takeWhile isBlank).reverse := by
    rw [trim, List.rdropWhile, ← List.reverse_append, List.takeWhile_append_dropWhile,
      List.reverse_reverse]
  refine ⟨⟨raw.takeWhile isBlank, ((raw.dropWhile isBlank).reverse.takeWhile isBlank).reverse,
    ?_, ?_, ?_⟩, ?_, ?_⟩
  · rw [← hsplit, List.takeWhile_append_dropWhile]
  · exact fun c hc => List.mem_takeWhile_imp hc
  · exact fun c hc => List.mem_takeWhile_imp (List.mem_reverse.mp hc)
  · intro c hc
    refine isBlank_head?_dropWhile (s := raw) ?_
    rw [hsplit]
    exact List.mem_head?_append_of_mem_head? hc
  · intro c hc
    rw [trim, List.rdropWhile, List.getLast?_reverse] at hc
    exact isBlank_head?_dropWhile hc

/-- Nothing else is left without the blanks. -/
lemma IsStripped.eq_trim (h : IsStripped raw value) : value = trim raw := by
  obtain ⟨⟨l, r, rfl, hl, hr⟩, hhead, hlast⟩ := h
  by_cases hne : value = []
  · have hblank : ∀ c ∈ l ++ (value ++ r), isBlank c = true := by
      intro c hc
      simp only [hne, List.nil_append, List.mem_append] at hc
      exact hc.elim (hl c) (hr c)
    rw [trim, List.dropWhile_eq_nil_iff.mpr hblank, hne]
    rfl
  · exact (trim_blanks hl hr hne hhead hlast).symm

/-- Blanks behind a value do not matter. -/
lemma trim_append_blanks (hs : ∀ c ∈ s, isBlank c = true) : trim (raw ++ s) = trim raw := by
  obtain ⟨⟨l, r, hraw, hl, hr⟩, hhead, hlast⟩ := isStripped_trim raw
  refine (IsStripped.eq_trim ⟨⟨l, r ++ s, ?_, hl, ?_⟩, hhead, hlast⟩).symm
  · conv_lhs => rw [hraw]
    simp
  · intro c hc
    exact (List.mem_append.mp hc).elim (hr c) (hs c)

end Strip

/-! ## Header blocks -/

/-- A carriage return and a newline. -/
def crlf : Bytes := [13, 10]

/-- The header block of a response: its status line and its fields. -/
structure Block where
  version : Bytes
  version_no_colon : 58 ∉ version
  code : Bytes
  code_isNumeral : IsNumeral code
  reason : Bytes
  reason_one_line : 13 ∉ reason ∧ 10 ∉ reason
  fields : List (Bytes × Bytes)
  names : ∀ f ∈ fields, f.1 ≠ [] ∧ 58 ∉ f.1 ∧ 47 ∉ f.1

namespace Block

/-- The line `HTTP/<version> <code> <reason>`. -/
def statusLine (b : Block) : Bytes :=
  ascii "HTTP/" ++ (b.version ++ (ascii " " ++ (b.code ++ (ascii " " ++ (b.reason ++ crlf)))))

/-- The line `name:value`. -/
def fieldLine (f : Bytes × Bytes) : Bytes := f.1 ++ 58 :: (f.2 ++ crlf)

/-- The lines of the block, with the empty one at its end. -/
def lines (b : Block) : List Bytes := b.statusLine :: (b.fields.map fieldLine ++ [crlf])

variable {b : Block} {f : Bytes × Bytes} {headers : List (Bytes × Bytes)}

/-- The only colon of a status line is one of the reason. -/
lemma mem_statusLine_iff : 58 ∈ b.statusLine ↔ 58 ∈ b.reason := by
  have hhttp : 58 ∉ ascii "HTTP/" := by decide
  have hspace : 58 ∉ ascii " " := by decide
  have hcode : 58 ∉ b.code := b.code_isNumeral.notMem rfl
  simp [statusLine, crlf, hhttp, hspace, b.version_no_colon, hcode]

/-- A status line drops what is stored, and is stored itself if it has a colon. -/
lemma exists_headerLine_statusLine (b : Block) : ∃ pairs : List (Bytes × Bytes),
    (∀ headers, headerLine headers b.statusLine = pairs) ∧ (pairs = [] ↔ 58 ∉ b.reason) := by
  have hhttp : ascii "HTTP/" <+: b.statusLine := List.prefix_append _ _
  rw [← mem_statusLine_iff]
  cases hcolon : b.statusLine.idxOf? 58 with
  | none =>
    refine ⟨[], fun headers => ?_, iff_of_true rfl (List.idxOf?_eq_none_iff.mp hcolon)⟩
    rw [headerLine, if_pos hhttp, hcolon]
  | some colon =>
    refine ⟨[(b.statusLine.take colon, trim (b.statusLine.drop (colon + 1)))], fun headers => ?_,
      iff_of_false (by simp) (not_not_intro ?_)⟩
    · rw [headerLine, if_pos hhttp, hcolon]
      rfl
    · by_contra hno
      rw [List.idxOf?_eq_none_iff.mpr hno] at hcolon
      exact absurd hcolon (by simp)

/-- A field line is no status line, as a name has no slash. -/
lemma not_http_fieldLine (hf : 47 ∉ f.1) : ¬ ascii "HTTP/" <+: fieldLine f := by
  rintro ⟨t, ht⟩
  -- the slash stands in front of the colon
  have htake : (fieldLine f).take 5 = ascii "HTTP/" := by
    rw [← ht]
    exact List.take_left' rfl
  have hmem : 47 ∈ (fieldLine f).take 5 := by rw [htake]; decide
  have hcolon : 58 ∉ (fieldLine f).take 5 := by rw [htake]; decide
  rw [fieldLine, List.take_append] at hmem hcolon
  rcases Nat.lt_or_ge f.1.length 5 with hlt | hge
  · obtain ⟨k, hk⟩ : ∃ k, 5 - f.1.length = k + 1 := ⟨4 - f.1.length, by omega⟩
    rw [hk] at hcolon
    exact hcolon (by simp)
  · rw [Nat.sub_eq_zero_of_le hge, List.take_zero, List.append_nil] at hmem
    exact hf (List.mem_of_mem_take hmem)

lemma headerLine_fieldLine (hcolon : 58 ∉ f.1) (hslash : 47 ∉ f.1) :
    headerLine headers (fieldLine f) = headers ++ [(f.1, trim f.2)] := by
  have hhttp := not_http_fieldLine hslash
  rw [fieldLine] at hhttp ⊢
  rw [headerLine_colon hcolon, if_neg hhttp, trim_append_blanks (by simp [crlf, isBlank])]

lemma headerLine_crlf : headerLine headers crlf = headers := by
  have hhttp : ¬ ascii "HTTP/" <+: crlf := by decide
  rw [headerLine, if_neg hhttp]
  rfl

/-- The fields of a block are stored in order. -/
lemma foldl_fieldLine {fields : List (Bytes × Bytes)}
    (h : ∀ f ∈ fields, f.1 ≠ [] ∧ 58 ∉ f.1 ∧ 47 ∉ f.1) (headers : List (Bytes × Bytes)) :
    (fields.map fieldLine).foldl headerLine headers
      = headers ++ fields.map fun f => (f.1, trim f.2) := by
  induction fields generalizing headers with
  | nil => simp
  | cons f fields ih =>
    obtain ⟨-, hcolon, hslash⟩ := h f (by simp)
    rw [List.map_cons, List.foldl_cons, headerLine_fieldLine hcolon hslash,
      ih fun g hg => h g (by simp [hg])]
    simp

/-- What is stored behind a block does not depend on what was stored before it. -/
lemma exists_foldl_lines (b : Block) : ∃ pairs : List (Bytes × Bytes),
    (pairs = [] ↔ 58 ∉ b.reason) ∧ ∀ headers,
      b.lines.foldl headerLine headers = pairs ++ b.fields.map fun f => (f.1, trim f.2) := by
  obtain ⟨pairs, hstatus, hnil⟩ := b.exists_headerLine_statusLine
  refine ⟨pairs, hnil, fun headers => ?_⟩
  rw [lines, List.foldl_cons, hstatus, List.foldl_append, foldl_fieldLine b.names,
    List.foldl_cons, List.foldl_nil, headerLine_crlf]

end Block

/-- **The headers of the last response.**  However many responses come before it and whatever
their headers are, what is stored behind the last header block are exactly its fields, in
order, with their names as they are and their values stripped, if and only if its reason phrase
has no colon. -/
theorem storedHeaders_iff (blocks : List Block) (last : Block) (es : List Event)
    (hes : ∀ e ∈ es, e.delivery.Sized)
    (hlines : headerLines es = (blocks ++ [last]).flatMap Block.lines) (sink sink' : ResponseSink)
    (hdeliver : deliver sink es = (false, sink')) :
    List.Forall₂ (fun h f => h.1 = f.1 ∧ IsStripped f.2 h.2) sink'.response.headers last.fields ↔
      58 ∉ last.reason := by
  obtain ⟨pairs, hnil, hfold⟩ := last.exists_foldl_lines
  have hstored : sink'.response.headers = pairs ++ last.fields.map fun f => (f.1, trim f.2) := by
    rw [(deliver_eq_false hes hdeliver).2.1, hlines, List.flatMap_append, List.foldl_append,
      List.flatMap_singleton, hfold]
  rw [hstored, ← hnil]
  constructor
  · intro h
    -- a pair of the status line is one too many
    have hlen := h.length_eq
    rw [List.length_append, List.length_map, Nat.add_eq_right] at hlen
    exact List.length_eq_zero_iff.mp hlen
  · rintro rfl
    rw [List.nil_append, List.forall₂_map_left_iff, List.forall₂_same]
    exact fun f _ => ⟨rfl, isStripped_trim f.2⟩

/-- A header block with one field. -/
def sampleBlock (reason : Bytes) (h : 13 ∉ reason ∧ 10 ∉ reason) : Block where
  version := ascii "1.1"
  version_no_colon := by decide
  code := ascii "200"
  code_isNumeral := by decide +kernel
  reason := reason
  reason_one_line := h
  fields := [(ascii "Server", ascii " grib\t")]
  names := by decide

/-- A redirect and the final response, line by line. -/
def sampleLines (reason : Bytes) (h : 13 ∉ reason ∧ 10 ∉ reason) : List Event :=
  ((sampleBlock (ascii "See: other") (by decide)).lines ++ (sampleBlock reason h).lines).map
    (.header <| whole ·)

lemma sampleLines_sized {reason : Bytes} {h : 13 ∉ reason ∧ 10 ∉ reason}
    (hsize : ∀ l ∈ (sampleBlock (ascii "See: other") (by decide)).lines ++
      (sampleBlock reason h).lines, l.length < 64) :
    ∀ e ∈ sampleLines reason h, e.delivery.Sized := by
  intro e he
  obtain ⟨l, hl, rfl⟩ := List.mem_map.mp he
  exact (whole_intact ((hsize l hl).trans (by norm_num))).sized

theorem storedHeaders_iff_ok :
    List.Forall₂ (fun h f => h.1 = f.1 ∧ IsStripped f.2 h.2)
      (deliver { limit := 0 } (sampleLines (ascii "OK") (by decide))).2.response.headers
      [(ascii "Server", ascii " grib\t")] := by
  have hstop : (deliver { limit := 0 } (sampleLines (ascii "OK") (by decide))).1 = false := by
    decide
  refine (storedHeaders_iff [sampleBlock (ascii "See: other") (by decide)]
    (sampleBlock (ascii "OK") (by decide)) (sampleLines (ascii "OK") (by decide))
    (sampleLines_sized (by decide)) rfl { limit := 0 } _ (Prod.ext hstop rfl)).mpr ?_
  decide

/-- A reason phrase with a colon is stored as a field. -/
theorem storedHeaders_colon :
    (deliver { limit := 0 } (sampleLines (ascii "OK: fine") (by decide))).1 = false ∧
      (deliver { limit := 0 } (sampleLines (ascii "OK: fine") (by decide))).2.response.headers
        = [(ascii "HTTP/1.1 200 OK", ascii "fine"), (ascii "Server", ascii "grib")] ∧
      ¬ List.Forall₂ (fun h f => h.1 = f.1 ∧ IsStripped f.2 h.2)
        (deliver { limit := 0 } (sampleLines (ascii "OK: fine") (by decide))).2.response.headers
        (sampleBlock (ascii "OK: fine") (by decide)).fields := by
  have hstored :
      (deliver { limit := 0 } (sampleLines (ascii "OK: fine") (by decide))).2.response.headers
        = [(ascii "HTTP/1.1 200 OK", ascii "fine"), (ascii "Server", ascii "grib")] := by
    decide
  refine ⟨by decide, hstored, fun h => ?_⟩
  rw [hstored] at h
  exact absurd h.length_eq (by decide)

end GribCpp.Http
