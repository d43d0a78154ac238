/-
# Transfers that are taken whole

What the callbacks make of the deliveries of a transfer: as long as each of them comes
whole and the body stays within the limit, nothing stops the transfer, the body is what
was delivered, and the last `Content-Range` of the final response is the one stored.  A
server that serves a file honestly therefore answers a range request with the bytes asked
for, whatever else it sends along.
-/
import GribCpp.Http.Range

namespace GribCpp.Http

open Decimal

/-! ## Deliveries -/

/-- The check on the sizes compares their product with the largest 64-bit number. -/
lemma Delivery.tooLarge_iff {d : Delivery} :
    d.TooLarge ↔ 2 ^ 64 ≤ d.size.toNat * d.count.toNat := by
  have hmax : (UInt64.ofNat (2 ^ 64 - 1)).toNat = 2 ^ 64 - 1 := rfl
  rw [Delivery.TooLarge, ← UInt64.pos_iff_ne_zero, UInt64.lt_iff_toNat_lt,
    UInt64.lt_iff_toNat_lt, UInt64.toNat_div, hmax]
  have hzero : (0 : UInt64).toNat = 0 := rfl
  rcases Nat.eq_zero_or_pos d.size.toNat with hsize | hsize
  · simp [hzero, hsize]
  · rw [Nat.div_lt_iff_lt_mul hsize, Nat.mul_comm]
    omega

/-- The memory of a delivery has the size that is announced. -/
def Delivery.Sized (d : Delivery) : Prop := d.data.length = d.size.toNat * d.count.toNat

namespace Delivery.Sized

variable {d : Delivery} (h : d.Sized) (hlarge : ¬ d.TooLarge)
include h hlarge

lemma toNat_bytes : d.bytes.toNat = d.data.length := by
  rw [tooLarge_iff, not_le] at hlarge
  rw [Delivery.bytes, UInt64.toNat_mul, Nat.mod_eq_of_lt hlarge, h]

lemma text_eq : d.text = d.data := by
  rw [Delivery.text, h.toNat_bytes hlarge, List.take_length]

end Delivery.Sized

/-- A delivery that comes whole. -/
structure Delivery.Intact (d : Delivery) : Prop where
  memory : d.memory = true
  length : d.data.length = d.size.toNat * d.count.toNat
  size_lt : d.data.length < 2 ^ 64

namespace Delivery.Intact

variable {d : Delivery} (h : d.Intact)
include h

lemma sized : d.Sized := h.length

lemma not_tooLarge : ¬ d.TooLarge := by
  rw [tooLarge_iff, ← h.length, not_le]
  exact h.size_lt

lemma toNat_bytes : d.bytes.toNat = d.data.length := h.sized.toNat_bytes h.not_tooLarge

lemma text_eq : d.text = d.data := h.sized.text_eq h.not_tooLarge

end Delivery.Intact

/-- The lines of the headers that a transfer delivers. -/
def headerLines (es : List Event) : List Bytes :=
  es.filterMap fun
    | .header d => some d.data
    | .body _ => none

/-- The body that a transfer delivers. -/
def bodyOf (es : List Event) : Bytes :=
  es.flatMap fun
    | .header _ => []
    | .body d => d.data

/-- The body callback appends a delivery that stays within the limit. -/
lemma writeCallback_intact {d : Delivery} (hd : d.Intact) {sink : ResponseSink}
    (hlimit : sink.limit = 0 ∨ sink.response.body.length + d.data.length ≤ sink.limit.toNat)
    (hsize : (sink.response.body ++ d.data).length < 2 ^ 64) :
    writeCallback sink d = (d.bytes,
      { sink with
        response := { sink.response with
          body := sink.response.body ++ d.data
          size_lt := hsize } }) := by
  have hfits : ¬ (0 < sink.limit ∧ sink.limit - sink.response.bodySize < d.bytes) := by
    rintro ⟨hpos, hlt⟩
    rcases hlimit with h0 | hle
    · rw [h0] at hpos
      exact absurd hpos (by decide)
    · have hle' : sink.response.bodySize ≤ sink.limit := by
        rw [UInt64.le_iff_toNat_le, HttpResponse.toNat_bodySize]
        omega
      rw [UInt64.lt_iff_toNat_lt, UInt64.toNat_sub_of_le _ _ hle', HttpResponse.toNat_bodySize,
        hd.toNat_bytes] at hlt
      omega
  have htext : d.memory = true ∧ (sink.response.body ++ d.text).length < 2 ^ 64 :=
    ⟨hd.memory, by rw [hd.text_eq]; exact hsize⟩
  rw [writeCallback, if_neg hd.not_tooLarge, if_neg hfits, dif_pos htext]
  simp only [hd.text_eq]

/-- The header callback takes a delivery that comes whole. -/
lemma headerCallback_intact {d : Delivery} (hd : d.Intact) {sink : ResponseSink} :
    headerCallback sink d = (d.bytes,
      { sink with
        response := { sink.response with
          headers := headerLine sink.response.headers d.data } }) := by
  rw [headerCallback, if_neg hd.not_tooLarge, if_pos (Or.inl hd.memory), hd.text_eq]

/-- A delivery that a callback takes whole does not stop the transfer. -/
lemma deliver_cons {e : Event} (he : e.delivery.Intact) {es : List Event}
    {sink sink' : ResponseSink} (h : e.callback sink = (e.delivery.bytes, sink')) :
    deliver sink (e :: es) = deliver sink' es := by
  rw [deliver]
  simp only [h, he.toNat_bytes, he.length, if_true]

/-- The callbacks take deliveries that come whole and stay within the limit. -/
lemma deliver_intact {es : List Event} (hes : ∀ e ∈ es, e.delivery.Intact) {sink : ResponseSink}
    (hlimit : sink.limit = 0 ∨
      sink.response.body.length + (bodyOf es).length ≤ sink.limit.toNat)
    (hsize : sink.response.body.length + (bodyOf es).length < 2 ^ 64) :
    ∃ sink', deliver sink es = (false, sink') ∧ sink'.overflowed = sink.overflowed ∧
      sink'.response.body = sink.response.body ++ bodyOf es ∧
      sink'.response.headers = (headerLines es).foldl headerLine sink.response.headers := by
  induction es generalizing sink with
  | nil => exact ⟨sink, rfl, rfl, by simp [bodyOf], rfl⟩
  | cons e es ih =>
    have he := hes e (by simp)
    have hes' : ∀ e ∈ es, e.delivery.Intact := fun e' h => hes e' (by simp [h])
    cases e with
    | header d =>
      rw [deliver_cons he (headerCallback_intact he)]
      exact ih hes' hlimit hsize
    | body d =>
      have hsplit : (bodyOf (.body d :: es)).length = d.data.length + (bodyOf es).length := by
        simp [bodyOf]
      rw [hsplit] at hlimit hsize
      have hsize' : (sink.response.body ++ d.data).length < 2 ^ 64 := by
        rw [List.length_append]
        omega
      have hfits : sink.limit = 0 ∨
          sink.response.body.length + d.data.length ≤ sink.limit.toNat := by
        rcases hlimit with h | h
        · exact Or.inl h
        · exact Or.inr (by omega)
      have hrest : sink.limit = 0 ∨
          (sink.response.body ++ d.data).length + (bodyOf es).length ≤ sink.limit.toNat := by
        rw [List.length_append, Nat.add_assoc]
        exact hlimit
      rw [deliver_cons he (writeCallback_intact he hfits hsize')]
      obtain ⟨sink', hdeliver, hover, hbody, hheaders⟩ := @ih hes'
        { sink with
          response := { sink.response with
            body := sink.response.body ++ d.data
            size_lt := hsize' } }
        hrest (by simp only [List.length_append]; omega)
      exact ⟨sink', hdeliver, hover, by rw [hbody]; simp [bodyOf], hheaders⟩

/-! ## Transfers that no callback stops -/

/-- The body callback appends what it takes. -/
lemma writeCallback_taken (sink : ResponseSink) {d : Delivery} (hd : d.Sized)
    (h : (writeCallback sink d).1.toNat = d.data.length) :
    (writeCallback sink d).2.response.body = sink.response.body ++ d.data ∧
      (writeCallback sink d).2.response.headers = sink.response.headers ∧
      (writeCallback sink d).2.overflowed = sink.overflowed := by
  have hzero : (0 : UInt64).toNat = 0 := rfl
  rw [writeCallback] at h ⊢
  split_ifs at h ⊢ with hlarge hover htext
  · rw [Delivery.tooLarge_iff, ← hd, ← h, hzero] at hlarge
    omega
  · -- nothing is refused of an empty delivery
    have hlt := UInt64.lt_iff_toNat_lt.mp hover.2
    rw [hd.toNat_bytes hlarge, ← h, hzero] at hlt
    omega
  · exact ⟨congrArg (sink.response.body ++ ·) (hd.text_eq hlarge), rfl, rfl⟩
  · have hnil : d.data = [] := List.length_eq_zero_iff.mp (h.symm.trans hzero)
    exact ⟨by rw [hnil, List.append_nil], rfl, rfl⟩

/-- The header callback handles what it takes as a line. -/
lemma headerCallback_taken (sink : ResponseSink) {d : Delivery} (hd : d.Sized)
    (h : (headerCallback sink d).1.toNat = d.data.length) :
    (headerCallback sink d).2.response.body = sink.response.body ∧
      (headerCallback sink d).2.response.headers = headerLine sink.response.headers d.data ∧
      (headerCallback sink d).2.overflowed = sink.overflowed := by
  have hzero : (0 : UInt64).toNat = 0 := rfl
  rw [headerCallback] at h ⊢
  split_ifs at h ⊢ with hlarge hmemory hhttp
  · rw [Delivery.tooLarge_iff, ← hd, ← h, hzero] at hlarge
    omega
  · exact ⟨rfl, by rw [hd.text_eq hlarge], rfl⟩
  all_goals
    -- a line without bytes has no colon
    have hnil : d.data = [] := List.length_eq_zero_iff.mp (h.symm.trans hzero)
    exact absurd (Or.inr (by rw [hd.text_eq hlarge, hnil]; rfl)) hmemory

/-- What a transfer comes to that no callback stops. -/
lemma deliver_eq_false {es : List Event} (hes : ∀ e ∈ es, e.delivery.Sized)
    {sink sink' : ResponseSink} (h : deliver sink es = (false, sink')) :
    sink'.response.body = sink.response.body ++ bodyOf es ∧
      sink'.response.headers = (headerLines es).foldl headerLine sink.response.headers ∧
      sink'.overflowed = sink.overflowed := by
  induction es generalizing sink with
  | nil =>
    obtain rfl := (Prod.mk.inj h).2
    exact ⟨by simp [bodyOf], rfl, rfl⟩
  | cons e es ih =>
    have he : e.delivery.Sized := hes e (by simp)
    have hsize : e.delivery.size.toNat * e.delivery.count.toNat = e.delivery.data.length := he.symm
    simp only [deliver, hsize] at h
    split at h
    · rename_i htaken
      obtain ⟨hbody, hheaders, hover⟩ := ih (fun e' he' => hes e' (by simp [he'])) h
      rw [hbody, hheaders, hover]
      cases e with
      | header d =>
        obtain ⟨hbody', hheaders', hover'⟩ := headerCallback_taken sink he htaken
        simp only [Event.callback, Event.delivery] at hbody' hheaders' hover' ⊢
        exact ⟨by rw [hbody']; simp [bodyOf], by rw [hheaders']; rfl, hover'⟩
      | body d =>
        obtain ⟨hbody', hheaders', hover'⟩ := writeCallback_taken sink he htaken
        simp only [Event.callback, Event.delivery] at hbody' hheaders' hover' ⊢
        exact ⟨by rw [hbody']; simp [bodyOf], by rw [hheaders']; rfl, hover'⟩
    · exact absurd (Prod.mk.inj h).1 (by simp)

/-! ## The headers -/

/-- The text between blanks. -/
lemma trim_blanks {l r v : Bytes} (hl : ∀ c ∈ l, isBlank c = true)
    (hr : ∀ c ∈ r, isBlank c = true) (hne : v ≠ [])
    (hhead : ∀ c ∈ v.head?, isBlank c = false) (hlast : ∀ c ∈ v.getLast?, isBlank c = false) :
    trim (l ++ (v ++ r)) = v := by
  have hfront : (v ++ r).dropWhile isBlank = v ++ r := by
    cases v with
    | nil => exact absurd rfl hne
    | cons c v =>
      have hc : isBlank c = false := hhead c rfl
      rw [List.cons_append, List.dropWhile_cons_of_neg (by simp [hc])]
  have hback : (r.reverse ++ v.reverse).dropWhile isBlank = v.reverse := by
    rw [List.dropWhile_append_of_pos (by simpa using hr)]
    cases hv : v.reverse with
    | nil => rfl
    | cons c w =>
      have hc : isBlank c = false := by
        refine hlast c ?_
        rw [List.getLast?_eq_head?_reverse, hv]
        rfl
      rw [List.dropWhile_cons_of_neg (by simp [hc])]
  rw [trim, List.dropWhile_append_of_pos hl, hfront, List.rdropWhile, List.reverse_append, hback,
    List.reverse_reverse]

/-- The line is a header of the name, up to case. -/
def IsHeaderOf (name line : Bytes) : Prop :=
  ∃ key rest, line = key ++ 58 :: rest ∧ 58 ∉ key ∧ key.map toLower = name

/-- A line that holds a header with a value, between blanks. -/
def HoldsHeader (name value line : Bytes) : Prop :=
  ∃ key l r, line = key ++ 58 :: (l ++ (value ++ r)) ∧ 58 ∉ key ∧ key.map toLower = name ∧
    (∀ c ∈ l, isBlank c = true) ∧ ∀ c ∈ r, isBlank c = true

/-- The colon of a header line. -/
lemma idxOf?_colon {key rest : Bytes} (h : 58 ∉ key) :
    (key ++ 58 :: rest).idxOf? 58 = some key.length := by
  rw [List.idxOf?_eq_some_iff]
  refine ⟨by simp, by simp, ?_⟩
  intro j hj hget
  rw [List.getElem_append_left hj] at hget
  exact h (hget ▸ List.getElem_mem hj)

/-- The header callback on a line with a colon. -/
lemma headerLine_colon {headers : List (Bytes × Bytes)} {key rest : Bytes} (h : 58 ∉ key) :
    headerLine headers (key ++ 58 :: rest)
      = (if ascii "HTTP/" <+: key ++ 58 :: rest then [] else headers) ++ [(key, trim rest)] := by
  rw [headerLine, idxOf?_colon h]
  have hdrop : (key ++ 58 :: rest).drop (key.length + 1) = rest := by
    rw [← List.drop_drop, List.drop_left]
    rfl
  simp [hdrop]

/-- Lines that start no new response and hold no header of the name add no such header. -/
lemma foldl_headerLine_other {name : Bytes} {lines : List Bytes}
    (h : ∀ line ∈ lines, ¬ ascii "HTTP/" <+: line ∧ ¬ IsHeaderOf name line)
    (headers : List (Bytes × Bytes)) :
    ∃ others, lines.foldl headerLine headers = headers ++ others ∧
      ∀ x ∈ others, x.1.map toLower ≠ name := by
  induction lines generalizing headers with
  | nil => exact ⟨[], by simp, by simp⟩
  | cons line lines ih =>
    obtain ⟨hhttp, hno⟩ := h line (by simp)
    have hlines := fun l hl => h l (List.mem_cons_of_mem line hl)
    by_cases hcolon : 58 ∈ line
    · -- a header of another name
      obtain ⟨key, rest, rfl, hkey⟩ := List.eq_append_cons_of_mem hcolon
      obtain ⟨others, heq, hothers⟩ := ih hlines (headers ++ [(key, trim rest)])
      refine ⟨(key, trim rest) :: others, ?_, ?_⟩
      · rw [List.foldl_cons, headerLine_colon hkey, if_neg hhttp, heq]
        simp
      · intro x hx
        rcases List.mem_cons.mp hx with rfl | hx
        · exact fun hname => hno ⟨key, rest, rfl, hkey, hname⟩
        · exact hothers x hx
    · -- no header at all
      have hnone : line.idxOf? 58 = none := List.idxOf?_eq_none_iff.mpr hcolon
      obtain ⟨others, heq, hothers⟩ := ih hlines headers
      refine ⟨others, ?_, hothers⟩
      rw [List.foldl_cons, headerLine, if_neg hhttp, hnone]
      exact heq

/-- The last header of a name, in whatever stands before and after it. -/
lemma isLastHeader_foldl {name value : Bytes} (before : List Bytes) {after : List Bytes}
    {line : Bytes} (hline : HoldsHeader name value line) (hne : value ≠ [])
    (hhead : ∀ c ∈ value.head?, isBlank c = false)
    (hlast : ∀ c ∈ value.getLast?, isBlank c = false)
    (hafter : ∀ l ∈ after, ¬ ascii "HTTP/" <+: l ∧ ¬ IsHeaderOf name l) :
    IsLastHeader name ((before ++ line :: after).foldl headerLine []) value := by
  obtain ⟨key, l, r, rfl, hkey, hname, hl, hr⟩ := hline
  rw [List.foldl_append, List.foldl_cons, headerLine_colon hkey,
    trim_blanks hl hr hne hhead hlast]
  obtain ⟨others, heq, hothers⟩ := foldl_headerLine_other hafter
    ((if ascii "HTTP/" <+: key ++ 58 :: (l ++ (value ++ r)) then []
      else before.foldl headerLine []) ++ [(key, value)])
  exact ⟨_, key, others, by rw [heq, List.append_assoc]; rfl, hname, hothers⟩

/-! ## Serving a file -/

/-- The text `bytes F-L/N`. -/
def contentRangeText (first last size : ℕ) : Bytes :=
  ascii "bytes " ++
    (numeral first ++ (ascii "-" ++ (numeral last ++ (ascii "/" ++ numeral size))))

/-- The last byte of a range, clamped to the size of the file. -/
def lastByte (size : ℕ) (last : Option ℕ) : ℕ := last.elim (size - 1) fun l => min l (size - 1)

/-- A transfer that answers a request for the bytes `first` to `last` of the file `F`: a
partial response with these bytes, in deliveries of any size, and with their
`Content-Range` among any other headers. -/
structure Serves (F : Bytes) (first last : ℕ) (t : Transfer) : Prop where
  code : t.code = curleOk
  status : t.status = some 206
  intact : ∀ e ∈ t.events, e.delivery.Intact
  body : bodyOf t.events = (F.drop first).take (last - first + 1)
  headers : ∃ before line after, headerLines t.events = before ++ line :: after ∧
    HoldsHeader (ascii "content-range") (contentRangeText first last F.length) line ∧
    ∀ l ∈ after, ¬ ascii "HTTP/" <+: l ∧ ¬ IsHeaderOf (ascii "content-range") l

/-- A client whose requests for a path can be sent and reach a server that serves the file
`F` honestly, whatever range inside of it is asked for. -/
structure ServedBy (F : Bytes) (client : HttpClient) (path : Bytes) (config : HttpClientConfig)
    (curl : Curl) : Prop where
  can_send : ∀ range, client.CanSend path (some range) config curl
  serves : ∀ range first last, parseRange range = some (first, last) → first < F.length →
    first ≤ lastByte F.length last →
    Serves F first (lastByte F.length last)
      (curl.easyPerform (requestOptions config path (some range)))

section Served

variable {F : Bytes} {first last size : ℕ}

lemma isContentRange_contentRangeText (first last size : ℕ) :
    IsContentRange (contentRangeText first last size) first last (numeral size) :=
  ⟨_, _, isNumeral_numeral _, isNumeral_numeral _, value_numeral _, value_numeral _, rfl⟩

/-- No end of a `Content-Range` is blank. -/
lemma isBlank_of_isContentRange {value total : Bytes} (h : IsContentRange value first last total)
    (htotal : IsNumeral total ∨ total = ascii "*") :
    (∀ c ∈ value.head?, isBlank c = false) ∧ ∀ c ∈ value.getLast?, isBlank c = false := by
  obtain ⟨f, l, -, -, -, -, rfl⟩ := h
  refine ⟨?_, ?_⟩
  · intro c hc
    obtain rfl : (98 : UInt8) = c := Option.some.inj hc
    rfl
  · intro c hc
    have hne : total ≠ [] := by
      rcases htotal with hnum | rfl
      · exact hnum.ne_nil
      · decide
    simp only [← List.append_assoc] at hc
    rw [List.getLast?_append_of_ne_nil _ hne] at hc
    have hmem := List.mem_of_getLast? hc
    rcases htotal with hnum | rfl
    · have hdigit := isDigit_iff.mp (hnum.digits c hmem)
      have hblank : ∀ b : UInt8, b.toNat < 48 → (c == b) = false := by
        intro b hb
        refine beq_false_of_ne fun h => ?_
        rw [h] at hdigit
        omega
      simp [isBlank, hblank 32 (by decide), hblank 9 (by decide), hblank 13 (by decide),
        hblank 10 (by decide)]
    · rw [List.mem_singleton.mp hmem]
      rfl

/-- What comes of a transfer that serves the bytes, within the limit. -/
lemma receive_served {p : Prepared} (hF : F.length < 2 ^ 64)
    (hserve : Serves F first last (p.curl.easyPerform p.options))
    (hlimit : p.limit = 0 ∨ (bodyOf (p.curl.easyPerform p.options).events).length ≤ p.limit.toNat) :
    ∃ response, p.receive = .ok response ∧ response.statusCode = 206 ∧
      response.body = (F.drop first).take (last - first + 1) ∧
      IsLastHeader (ascii "content-range") response.headers
        (contentRangeText first last F.length) := by
  obtain ⟨before, line, after, hlines, hline, hafter⟩ := hserve.headers
  have hbodyle : (bodyOf (p.curl.easyPerform p.options).events).length ≤ F.length := by
    rw [hserve.body]
    exact (List.length_take_le' _ _).trans (by rw [List.length_drop]; omega)
  obtain ⟨sink, hdeliver, hover, hbody, hheaders⟩ := @deliver_intact _ hserve.intact
    { limit := p.limit } (by simpa using hlimit) (by simpa using hbodyle.trans_lt hF)
  refine ⟨{ sink.response with statusCode := 206 }, ?_, rfl, ?_, ?_⟩
  · rw [Prepared.receive, hdeliver, hserve.code, hserve.status]
    simp only [hover]
    rfl
  · rw [← hserve.body]
    simpa using hbody
  · obtain ⟨hhead, hlast⟩ := isBlank_of_isContentRange
      (isContentRange_contentRangeText first last F.length)
      (Or.inl (isNumeral_numeral _))
    have h := isLastHeader_foldl before hline (by simp [contentRangeText, ascii]) hhead
      hlast hafter
    simp only [hheaders, hlines]
    exact h

end Served

/-- What stands behind the slash of a `Content-Range`: the size of the file, or a star when all
of a closed range is answered. -/
def TellsSize (size length body : ℕ) (total : Bytes) : Prop :=
  (IsNumeral total ∧ Decimal.value total = size) ∨
    (total = ascii "*" ∧ 0 < length ∧ body = length)

/-- The `Content-Range` of an honest answer confirms the body. -/
lemma isRequested_of_isContentRange {size offset length last : ℕ} (hsize : size < 2 ^ 64)
    (hoffset : offset < size) {response : HttpResponse}
    (hlast : last = lastByte size (if length = 0 then none else some (offset + length - 1)))
    (hbody : response.body.length = last - offset + 1) {value total : Bytes}
    (hheader : IsLastHeader (ascii "content-range") response.headers value)
    (hvalue : IsContentRange value offset last total)
    (htotal : TellsSize size length response.body.length total) :
    IsRequested offset length response := by
  have hend : (length = 0 → last = size - 1) ∧
      (0 < length → last = min (offset + length - 1) (size - 1)) := by
    rw [hlast]
    refine ⟨fun h => by rw [if_pos h]; rfl, fun h => by rw [if_neg h.ne']; rfl⟩
  have hle : offset ≤ last ∧ last < size := by
    rcases Nat.eq_zero_or_pos length with h | h
    · have := hend.1 h
      omega
    · have := hend.2 h
      omega
  refine ⟨value, offset, last, total, hheader, hvalue, rfl, hle.1, hbody, fun hpos => ?_, ?_⟩
  · have := hend.2 hpos
    omega
  · rcases htotal with ⟨hnum, hval⟩ | ⟨rfl, hunknown⟩
    · exact ⟨Or.inr ⟨hnum, by rwa [hval]⟩, fun hstar => absurd (hstar ▸ hnum) not_isNumeral_star,
        fun _ => by rw [hval]; exact hle.2, fun _ h0 => by rw [hval]; exact hend.1 h0,
        fun _ hpos => by rw [hval]; exact hend.2 hpos⟩
    · exact totalFits_star_iff.mpr hunknown

/-- **An honest server is believed.**  A range request that begins in the file is answered
with the bytes asked for, up to the end of the file. -/
theorem getRange_served {F : Bytes} (hF : F.length < 2 ^ 64) {client : HttpClient} {path : Bytes}
    {config : HttpClientConfig} {curl : Curl} (hserved : ServedBy F client path config curl)
    {offset length : UInt64} (hguard : ¬ RangeOverflows offset length)
    (hoffset : offset.toNat < F.length) {body : Bytes}
    (hbody : body = (F.drop offset.toNat).take
      (if length.toNat = 0 then F.length - offset.toNat else length.toNat))
    (hlimit : config.maxResponseBytes = 0 ∨ body.length ≤ config.maxResponseBytes.toNat) :
    ∃ response, (client.getRange path offset length).result = .ok response ∧
      response.body = body := by
  have hparse := parseRange_rangeText hguard
  set end_ := if length.toNat = 0 then none else some (offset.toNat + length.toNat - 1) with hend
  have hlast : lastByte F.length end_
      = if length.toNat = 0 then F.length - 1
        else min (offset.toNat + length.toNat - 1) (F.length - 1) := by
    rw [hend]
    split <;> rfl
  have hle : offset.toNat ≤ lastByte F.length end_ := by
    rw [hlast]
    split <;> omega
  -- the request asks for bytes of the file, so that the server answers it
  have hserve := hserved.serves _ _ _ hparse hoffset hle
  -- both descriptions of the body cut the file at the same place
  have hcut : (F.drop offset.toNat).take (lastByte F.length end_ - offset.toNat + 1) = body := by
    rw [hbody, List.take_eq_take_iff, List.length_drop, hlast]
    split <;> omega
  rw [← hcut, ← hserve.body] at hlimit
  have hprepare : client.prepare path (some (rangeText offset length))
      = .ok ⟨curl, config.maxResponseBytes,
          requestOptions config path (some (rangeText offset length))⟩ :=
    prepare_eq_ok_iff.mpr ⟨config, curl, hserved.can_send _, rfl⟩
  obtain ⟨response, hreceive, hstatus, hresponse, hheader⟩ :=
    receive_served (p := ⟨curl, config.maxResponseBytes,
      requestOptions config path (some (rangeText offset length))⟩) hF hserve hlimit
  refine ⟨response, ?_, hresponse.trans hcut⟩
  have hperform : (client.perform path (some (rangeText offset length))).result = .ok response := by
    rw [HttpClient.perform, hprepare]
    exact hreceive
  rw [HttpClient.getRange, getRangeWith, if_neg hguard]
  simp only [hperform]
  have hlen : response.body.length = lastByte F.length end_ - offset.toNat + 1 := by
    rw [hresponse, List.length_take, List.length_drop]
    rw [hlast] at hle ⊢
    split <;> omega
  have hrequested := isRequested_of_isContentRange hF hoffset rfl hlen hheader
    (isContentRange_contentRangeText _ _ _) (Or.inl ⟨isNumeral_numeral _, value_numeral _⟩)
  exact (checkResponse_eq_ok_iff hguard).mpr ⟨rfl, Or.inr (Or.inr ⟨hstatus, hrequested⟩)⟩

/-! ## An honest server -/

/-- A delivery of single bytes. -/
def whole (s : Bytes) : Delivery := { data := s, size := 1, count := UInt64.ofNat s.length }

lemma whole_intact {s : Bytes} (h : s.length < 2 ^ 64) : (whole s).Intact := by
  refine ⟨rfl, ?_, h⟩
  have hone : (1 : UInt64).toNat = 1 := rfl
  rw [whole, hone, Nat.one_mul, UInt64.toNat_ofNat_of_lt' h]

/-- The header lines of an honest answer. -/
def honestHeaders (first last size : ℕ) : List Bytes :=
  [ascii "HTTP/1.1 206 Partial Content\r\n",
    ascii "Content-Range" ++ 58 :: ([32] ++ (contentRangeText first last size ++ [13, 10])),
    [13, 10]]

/-- libcurl in front of a server that serves a file. -/
def honestCurl (F : Bytes) : Curl where
  slistAppend := true
  setopt _ := true
  strerror _ := []
  easyPerform opts :=
    match opts.range.bind parseRange with
    | none => { events := [], code := curleOk, status := some 416 }
    | some (first, last) =>
      { events :=
          (honestHeaders first (lastByte F.length last) F.length).map (.header <| whole ·) ++
          [.body (whole ((F.drop first).take (lastByte F.length last - first + 1)))]
        code := curleOk
        status := some 206 }

lemma length_honestHeaders {first last size : ℕ} (hfirst : first < 2 ^ 64) (hlast : last < 2 ^ 64)
    (hsize : size < 2 ^ 64) : ∀ line ∈ honestHeaders first last size, line.length < 2 ^ 64 := by
  have hnum : ∀ n < 2 ^ 64, (numeral n).length ≤ 20 := fun n hn =>
    length_numeral_le (by decide) (hn.trans (by norm_num))
  have h1 := hnum first hfirst
  have h2 := hnum last hlast
  have h3 := hnum size hsize
  intro line hline
  simp only [honestHeaders, List.mem_cons, List.not_mem_nil, or_false] at hline
  rcases hline with rfl | rfl | rfl
  · decide
  · have hkey : (ascii "Content-Range").length = 13 := rfl
    have hbytes : (ascii "bytes ").length = 6 := rfl
    have hdash : (ascii "-").length = 1 := rfl
    have hslash : (ascii "/").length = 1 := rfl
    simp only [contentRangeText, List.length_append, List.length_cons, List.length_nil, hkey,
      hbytes, hdash, hslash]
    omega
  · decide

/-- The honest server is one that the client may rely on. -/
theorem servedBy_honestCurl {F : Bytes} (hF : F.length < 2 ^ 64) {client : HttpClient}
    {path : Bytes} {config : HttpClientConfig}
    (hsend : ∀ range, client.CanSend path (some range) config (honestCurl F)) :
    ServedBy F client path config (honestCurl F) := by
  refine ⟨hsend, ?_⟩
  intro range first last hparse hfirst hle
  have hlast : lastByte F.length last < F.length := by
    have hle' : lastByte F.length last ≤ F.length - 1 := by
      cases last with
      | none => exact le_refl _
      | some l => exact min_le_right _ _
    omega
  have hheaders := length_honestHeaders (hfirst.trans hF) (hlast.trans hF) hF
  have hbody : ((F.drop first).take (lastByte F.length last - first + 1)).length < 2 ^ 64 := by
    have h := List.length_take_le' (lastByte F.length last - first + 1) (F.drop first)
    rw [List.length_drop] at h
    omega
  have htransfer : (honestCurl F).easyPerform (requestOptions config path (some range))
      = { events := (honestHeaders first (lastByte F.length last) F.length).map
            (.header <| whole ·) ++
              [.body (whole ((F.drop first).take (lastByte F.length last - first + 1)))]
          code := curleOk
          status := some 206 } := by
    simp [honestCurl, requestOptions, hparse]
  rw [htransfer]
  refine ⟨rfl, rfl, ?_, ?_, ?_⟩
  · intro e he
    simp only [List.mem_append, List.mem_map, List.mem_singleton] at he
    rcases he with ⟨line, hline, rfl⟩ | rfl
    · exact whole_intact (hheaders line hline)
    · exact whole_intact hbody
  · simp [bodyOf, honestHeaders, whole]
  · refine ⟨[ascii "HTTP/1.1 206 Partial Content\r\n"], _, [[13, 10]], rfl, ?_, ?_⟩
    · exact ⟨ascii "Content-Range", [32], [13, 10], rfl, by decide, by decide, by simp [isBlank],
        by simp [isBlank]⟩
    · intro l hl
      rw [List.mem_singleton.mp hl]
      refine ⟨by decide, ?_⟩
      rintro ⟨key, rest, heq, -, -⟩
      have hmem : (58 : UInt8) ∈ [(13 : UInt8), 10] := by rw [heq]; simp
      exact absurd hmem (by decide)

end GribCpp.Http
