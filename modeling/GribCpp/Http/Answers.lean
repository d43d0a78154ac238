/-
# Honest partial responses

The converse of the soundness of the range checks: a partial response that a server gives in
good faith passes them.  Its body are the bytes of the file that were asked for, clamped to the
end of the file, and its `Content-Range` says so, in any letter case, between any blanks,
behind the headers of any earlier responses; the size of the file is stated, or it is a star
and the body is as long as the range.
-/
import GribCpp.Http.Transfer

namespace GribCpp.Http

open Decimal

/-- The last byte of the answer to a range request. -/
def answerEnd (size offset length : ℕ) : ℕ :=
  if length = 0 then size - 1 else min (offset + length - 1) (size - 1)

/-- A transfer that answers the request for a range of the file `F` in good faith.  The header
lines in front of the `Content-Range` are any lines, those of earlier responses among them. -/
structure AnswersRange (F : Bytes) (offset length : ℕ) (t : Transfer) : Prop where
  code : t.code = curleOk
  status : t.status = some 206
  sized : ∀ e ∈ t.events, e.delivery.Sized
  body : bodyOf t.events = (F.drop offset).take (answerEnd F.length offset length - offset + 1)
  headers : ∃ before line after value total,
    headerLines t.events = before ++ line :: after ∧
    HoldsHeader (ascii "content-range") value line ∧
    IsContentRange value offset (answerEnd F.length offset length) total ∧
    TellsSize F.length length (bodyOf t.events).length total ∧
    ∀ l ∈ after, ¬ ascii "HTTP/" <+: l ∧ ¬ IsHeaderOf (ascii "content-range") l

/-- A transfer that ends well has not been stopped. -/
lemma receive_eq_ok {p : Prepared} {response : HttpResponse} (h : p.receive = .ok response) :
    ∃ sink status, deliver { limit := p.limit } (p.curl.easyPerform p.options).events
        = (false, sink) ∧
      (p.curl.easyPerform p.options).status = some status ∧
      response = { sink.response with statusCode := Int16.ofInt status } := by
  rw [Prepared.receive] at h
  rcases hdeliver : deliver { limit := p.limit } (p.curl.easyPerform p.options).events
    with ⟨stopped, sink⟩
  rw [hdeliver] at h
  cases stopped with
  | true =>
    -- a write error is reported
    have hcodes : ¬ curleWriteError = curleOperationTimedout ∧ curleWriteError ≠ curleOk := by
      decide
    simp only [if_true, if_neg hcodes.1, if_pos hcodes.2] at h
    split_ifs at h
  | false =>
    simp only [Bool.false_eq_true, if_false] at h
    split_ifs at h
    cases hstatus : (p.curl.easyPerform p.options).status with
    | none => simp [hstatus] at h
    | some status =>
      rw [hstatus] at h
      exact ⟨sink, status, rfl, rfl, (Except.ok.inj h).symm⟩

section Answers

variable {F : Bytes} {offset length : ℕ} {t : Transfer}

lemma answerEnd_eq {size : ℕ} : answerEnd size offset length
    = lastByte size (if length = 0 then none else some (offset + length - 1)) := by
  rw [answerEnd]
  split <;> rfl

/-- The range ends in the file, and not before it begins. -/
lemma le_answerEnd (length : ℕ) {size : ℕ} (h : offset < size) :
    offset ≤ answerEnd size offset length ∧ answerEnd size offset length < size := by
  rw [answerEnd]
  split <;> omega

lemma AnswersRange.length_body (h : AnswersRange F offset length t) (hoffset : offset < F.length) :
    (bodyOf t.events).length = answerEnd F.length offset length - offset + 1 := by
  have hend := le_answerEnd length hoffset
  rw [h.body, List.length_take, List.length_drop]
  omega

/-- An answer in good faith is what was asked for. -/
lemma AnswersRange.isRequested (h : AnswersRange F offset length t) (hF : F.length < 2 ^ 64)
    (hoffset : offset < F.length) (response : HttpResponse)
    (hbody : response.body = bodyOf t.events)
    (hheaders : response.headers = (headerLines t.events).foldl headerLine []) :
    IsRequested offset length response := by
  obtain ⟨before, line, after, value, total, hlines, hline, hvalue, htotal, hafter⟩ := h.headers
  obtain ⟨hhead, hlast⟩ := isBlank_of_isContentRange hvalue (htotal.imp And.left And.left)
  have hne : value ≠ [] := by
    obtain ⟨f, l, -, -, -, -, rfl⟩ := hvalue
    simp [ascii]
  have hheader := isLastHeader_foldl before hline hne hhead hlast hafter
  rw [← hlines, ← hheaders] at hheader
  rw [← hbody] at htotal
  exact isRequested_of_isContentRange hF hoffset answerEnd_eq
    (by rw [hbody, h.length_body hoffset]) hheader hvalue htotal

end Answers

/-- **No honest answer is rejected.**  When a range that ends below `2 ^ 64` and begins in the
file is answered in good faith, `get_range` returns what the request has come to, unchanged.
As long as no delivery is lost and the body stays within the limit, that is the response with
the bytes asked for. -/
theorem getRange_answered (F : Bytes) (hF : F.length < 2 ^ 64) (offset length : UInt64)
    (hend : length.toNat = 0 ∨ offset.toNat + length.toNat - 1 ≤ 2 ^ 64 - 1)
    (hoffset : offset.toNat < F.length) (client : HttpClient) (path : Bytes)
    (config : HttpClientConfig) (curl : Curl)
    (hsend : client.CanSend path (some (rangeText offset length)) config curl) (t : Transfer)
    (ht : t = curl.easyPerform (requestOptions config path (some (rangeText offset length))))
    (hanswer : AnswersRange F offset.toNat length.toNat t) :
    (client.getRange path offset length).result
        = (client.perform path (some (rangeText offset length))).result ∧
      ((∀ e ∈ t.events, e.delivery.Intact) →
        (config.maxResponseBytes = 0 ∨
          (bodyOf t.events).length ≤ config.maxResponseBytes.toNat) →
        ∃ response, (client.getRange path offset length).result = .ok response ∧
          response.statusCode = 206 ∧ response.body = bodyOf t.events ∧
          response.headers = (headerLines t.events).foldl headerLine []) := by
  have hguard : ¬ RangeOverflows offset length := by
    rw [rangeOverflows_iff]
    omega
  have hprepare := prepare_eq_ok_iff.mpr ⟨config, curl, hsend, rfl⟩
  have hperform : (client.perform path (some (rangeText offset length))).result
      = Prepared.receive ⟨curl, config.maxResponseBytes,
        requestOptions config path (some (rangeText offset length))⟩ := by
    rw [HttpClient.perform, hprepare]
  have hsame : (client.getRange path offset length).result
      = (client.perform path (some (rangeText offset length))).result := by
    rw [HttpClient.getRange, getRangeWith, if_neg hguard]
    simp only
    cases hresult : (client.perform path (some (rangeText offset length))).result with
    | error e => rfl
    | ok response =>
      rw [hperform] at hresult
      obtain ⟨sink, status, hdeliver, hstatus, hresponse⟩ := receive_eq_ok hresult
      simp only [← ht] at hdeliver hstatus
      obtain rfl := Option.some.inj (hstatus.symm.trans hanswer.status)
      obtain ⟨hbody, hheaders, -⟩ := deliver_eq_false hanswer.sized hdeliver
      have hrequested := hanswer.isRequested hF hoffset response
        (by rw [hresponse]; exact hbody) (by rw [hresponse]; exact hheaders)
      have h206 : response.statusCode = 206 := by
        rw [hresponse]
        exact Int16.toInt_inj.mp rfl
      exact (checkResponse_eq_ok_iff hguard).mpr ⟨rfl, Or.inr (Or.inr ⟨h206, hrequested⟩)⟩
  refine ⟨hsame, fun hintact hlimit => ?_⟩
  have hsize : (bodyOf t.events).length < 2 ^ 64 := by
    rw [hanswer.length_body hoffset]
    have := le_answerEnd length.toNat hoffset
    omega
  obtain ⟨sink, hdeliver, hover, hbody, hheaders⟩ := @deliver_intact t.events hintact
    { limit := config.maxResponseBytes } (by simpa using hlimit) (by simpa using hsize)
  refine ⟨{ sink.response with statusCode := 206 }, ?_, rfl, hbody, hheaders⟩
  rw [hsame, hperform, Prepared.receive]
  simp only [← ht, hdeliver, hanswer.code, hanswer.status, hover]
  rfl

/-- Ten bytes. -/
def tenBytes : Bytes := ascii "0123456789"

/-- A client of a server that serves ten bytes. -/
def tenClient : HttpClient where
  impl := some ⟨{}, some (honestCurl tenBytes)⟩

/-- An honest server answers in good faith. -/
lemma Serves.answersRange {F : Bytes} {offset length : ℕ} {t : Transfer}
    (h : Serves F offset (answerEnd F.length offset length) t) :
    AnswersRange F offset length t := by
  obtain ⟨before, line, after, hlines, hline, hafter⟩ := h.headers
  exact ⟨h.code, h.status, fun e he => (h.intact e he).sized, h.body, before, line, after, _,
    numeral F.length, hlines, hline, isContentRange_contentRangeText _ _ _,
    Or.inl ⟨isNumeral_numeral _, value_numeral _⟩, hafter⟩

theorem getRange_answered_ten :
    ∃ response, (tenClient.getRange (ascii "/ten") 2 20).result = .ok response ∧
      response.statusCode = 206 ∧ response.body = ascii "23456789" := by
  have hsend : ∀ range, tenClient.CanSend (ascii "/ten") (some range) {} (honestCurl tenBytes) :=
    fun _ => ⟨rfl, by decide, by decide, by decide, rfl, rfl⟩
  have hparse : parseRange (rangeText 2 20) = some (2, some 21) := parseRange_rangeText (by decide)
  have hserves := (servedBy_honestCurl (F := tenBytes) (by decide) hsend).serves _ 2 (some 21)
    hparse (by decide) (by decide)
  obtain ⟨response, hresult, hstatus, hbody, -⟩ := (getRange_answered tenBytes (by decide) 2 20
    (Or.inr (by decide)) (by decide) tenClient (ascii "/ten") {} (honestCurl tenBytes) (hsend _) _
    rfl (Serves.answersRange hserves)).2 hserves.intact
    (Or.inr (by rw [hserves.body]; decide))
  refine ⟨response, hresult, hstatus, ?_⟩
  rw [hbody, hserves.body]
  decide

end GribCpp.Http
