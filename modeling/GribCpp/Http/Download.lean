/-
# Downloads in whole and in parts

A file that a server gives as a whole, in answer to `get`, and the parts of it that the server
gives in answer to range requests.
-/
import GribCpp.Http.Answers

namespace GribCpp.Http

/-- A transfer that answers a request for all of the file `F`: a response with its bytes, in
deliveries of any size, under any headers. -/
structure AnswersWhole (F : Bytes) (t : Transfer) : Prop where
  code : t.code = curleOk
  status : t.status = some 200
  intact : ∀ e ∈ t.events, e.delivery.Intact
  body : bodyOf t.events = F

section Download

variable {F : Bytes} {client : HttpClient} {path : Bytes} {config : HttpClientConfig} {curl : Curl}

/-- A request that can be sent is sent with its options, and comes to what is received. -/
lemma HttpClient.CanSend.perform_eq {range : Option Bytes}
    (h : client.CanSend path range config curl) :
    client.perform path range
      = ⟨some (requestOptions config path range),
          Prepared.receive ⟨curl, config.maxResponseBytes, requestOptions config path range⟩⟩ := by
  rw [HttpClient.perform, prepare_eq_ok_iff.mpr ⟨config, curl, h, rfl⟩]

/-- A file that is not larger than the limit is downloaded as a whole. -/
lemma get_answered (hF : F.length < 2 ^ 64) (hsend : client.CanSend path none config curl)
    (hanswer : AnswersWhole F (curl.easyPerform (requestOptions config path none)))
    (hlimit : config.maxResponseBytes = 0 ∨ F.length ≤ config.maxResponseBytes.toNat) :
    ∃ response, client.get path = ⟨some (requestOptions config path none), .ok response⟩ ∧
      response.statusCode = 200 ∧ response.body = F := by
  obtain ⟨sink, hdeliver, hover, hbody, -⟩ := @deliver_intact _ hanswer.intact
    { limit := config.maxResponseBytes } (by simpa [hanswer.body] using hlimit)
    (by simpa [hanswer.body] using hF)
  refine ⟨{ sink.response with statusCode := 200 }, ?_, rfl, ?_⟩
  · rw [HttpClient.get, hsend.perform_eq, Prepared.receive]
    simp only [hdeliver, hanswer.code, hanswer.status, hover]
    rfl
  · simpa [hanswer.body] using hbody

/-- What a range request returns has been received. -/
lemma perform_of_getRange {offset length : UInt64} (hguard : ¬ RangeOverflows offset length)
    {response : HttpResponse} (h : (client.getRange path offset length).result = .ok response) :
    (client.perform path (some (rangeText offset length))).result = .ok response ∧
      checkResponse offset length response = .ok response := by
  rw [HttpClient.getRange, getRangeWith, if_neg hguard] at h
  simp only at h
  cases hperform : (client.perform path (some (rangeText offset length))).result with
  | error e =>
    rw [hperform] at h
    exact absurd h (by simp [bind, Except.bind])
  | ok received =>
    rw [hperform] at h
    have hcheck : checkResponse offset length received = .ok response := h
    obtain ⟨rfl, -⟩ := (checkResponse_eq_ok_iff hguard).mp hcheck
    exact ⟨rfl, hcheck⟩

/-- An honest server answers with status 206. -/
lemma statusCode_of_served (hserved : ServedBy F client path config curl) {offset length : UInt64}
    (hguard : ¬ RangeOverflows offset length) (hoffset : offset.toNat < F.length)
    {response : HttpResponse} (h : (client.getRange path offset length).result = .ok response) :
    response.statusCode = 206 := by
  have hle := (le_answerEnd length.toNat hoffset).1
  rw [answerEnd_eq] at hle
  have hserve := hserved.serves _ _ _ (parseRange_rangeText hguard) hoffset hle
  have hreceive := (perform_of_getRange hguard h).1
  rw [(hserved.can_send _).perform_eq] at hreceive
  obtain ⟨sink, status, -, hstatus, rfl⟩ := receive_eq_ok hreceive
  obtain rfl := Option.some.inj (hstatus.symm.trans hserve.status)
  exact Int16.toInt_inj.mp rfl

end Download

end GribCpp.Http
