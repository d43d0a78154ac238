/-
# URLs of requests

A path that is a URL of its own is requested as it is, any other one behind the base URL of the
client.  `is_absolute_url` looks at the first `://` of the path only; here it is shown to accept
exactly the texts that begin with the scheme of a URL and `://`, whatever follows.
-/
import GribCpp.Http.Client

namespace GribCpp.Http

open Decimal Search

/-! ## Schemes -/

/-- An ASCII letter. -/
def IsLetter (c : UInt8) : Prop := (97 ≤ c ∧ c ≤ 122) ∨ (65 ≤ c ∧ c ≤ 90)

instance (c : UInt8) : Decidable (IsLetter c) := inferInstanceAs (Decidable (_ ∨ _))

/-- A byte that a scheme may contain. -/
def InScheme (c : UInt8) : Prop := IsLetter c ∨ isDigit c = true ∨ c = 43 ∨ c = 46 ∨ c = 45

instance (c : UInt8) : Decidable (InScheme c) := inferInstanceAs (Decidable (_ ∨ _))

/-- A scheme: a letter, and then letters, digits, plus, dot and minus. -/
def IsScheme (S : Bytes) : Prop := (∃ c ∈ S.head?, IsLetter c) ∧ ∀ c ∈ S, InScheme c

/-- The text is a scheme, `://` and anything. -/
def IsAbsolute (value : Bytes) : Prop := ∃ S R, value = S ++ ascii "://" ++ R ∧ IsScheme S

/-- The bytes that the source lists. -/
lemma codes_schemeText :
    (ascii "abcdefghijklmnopqrstuvwxyzABCDEFGHIJKLMNOPQRSTUVWXYZ0123456789+.-").map UInt8.toNat
      = List.range' 97 26 ++ List.range' 65 26 ++ List.range' 48 10 ++ [43, 46, 45] := rfl

/-- They are the bytes of a scheme. -/
lemma mem_schemeText_iff (c : UInt8) :
    c ∈ ascii "abcdefghijklmnopqrstuvwxyzABCDEFGHIJKLMNOPQRSTUVWXYZ0123456789+.-" ↔
      InScheme c := by
  have hinj : Function.Injective UInt8.toNat := fun _ _ => UInt8.toNat_inj.mp
  rw [← List.mem_map_of_injective hinj, codes_schemeText]
  simp only [InScheme, IsLetter, isDigit_iff, UInt8.le_iff_toNat_le, ← UInt8.toNat_inj,
    UInt8.reduceToNat, List.mem_append, List.mem_range'_1, List.mem_cons, List.not_mem_nil,
    or_false]
  omega

/-- A scheme contains no colon, so that the first `://` stands behind it. -/
lemma indexOf?_scheme {S : Bytes} (hS : ∀ c ∈ S, InScheme c) (R : Bytes) :
    indexOf? (ascii "://") (S ++ (ascii "://" ++ R)) = some S.length := by
  refine indexOf?_append (List.prefix_append _ _) fun j hj hocc => ?_
  obtain ⟨r, hr⟩ := hocc
  -- an occurrence inside of the scheme would begin with one of its bytes
  have hcolon : (58 : UInt8) = S[j] := by
    rw [List.drop_append_of_le_length hj.le, List.drop_eq_getElem_cons hj] at hr
    exact (List.cons.inj hr).1
  have hin := hS _ (List.getElem_mem hj)
  rw [← hcolon] at hin
  exact absurd hin (by decide)

/-- **The test of the source is the grammar.** -/
theorem isAbsoluteUrl_iff (value : Bytes) : isAbsoluteUrl value = true ↔ IsAbsolute value := by
  rw [isAbsoluteUrl]
  constructor
  · intro h
    split at h
    · exact absurd h (by simp)
    · rename_i end_ hend
      obtain ⟨hle, ⟨R, hR⟩, -⟩ := indexOf?_eq_some_iff.mp hend
      split_ifs at h with hzero
      split at h
      · exact absurd h (by simp)
      · rename_i first hfirst
        split_ifs at h with hletter
        refine ⟨value.take end_, R, ?_, ⟨first, ?_, hletter⟩, ?_⟩
        · rw [List.append_assoc, hR, List.take_append_drop]
        · rw [List.head?_take, if_neg hzero]
          exact hfirst
        · intro c hc
          have hall := List.all_eq_true.mp h c hc
          exact (mem_schemeText_iff c).mp (by simpa using hall)
  · rintro ⟨S, R, rfl, ⟨first, hfirst, hletter⟩, hS⟩
    have hne : S ≠ [] := by
      rintro rfl
      exact absurd hfirst (by simp)
    have hhead : (S ++ (ascii "://" ++ R)).head? = some first := by
      rw [List.head?_append_of_ne_nil _ hne]
      exact hfirst
    have hletter' : (97 ≤ first ∧ first ≤ 122) ∨ (65 ≤ first ∧ first ≤ 90) := hletter
    rw [List.append_assoc, indexOf?_scheme hS R]
    simp only [List.length_eq_zero_iff, if_neg hne, hhead]
    rw [if_neg (not_not.mpr hletter'), List.take_left, List.all_eq_true]
    intro c hc
    simpa using (mem_schemeText_iff c).mpr (hS c hc)

/-! ## The main result -/

/-- **The URL of a request.**  A path that is a scheme, `://` and anything is requested as it is,
and every other path behind the base URL; in particular every path that does not begin with a
letter.  A request that is sent is sent to that URL. -/
theorem url_resolution (config : HttpClientConfig) (path : Bytes) :
    (isAbsoluteUrl path = true ↔ IsAbsolute path) ∧
    (IsAbsolute path → requestUrl config path = path) ∧
    (¬ IsAbsolute path → requestUrl config path = config.baseUrl ++ path) ∧
    (∀ c ∈ path.head?, ¬ IsLetter c → requestUrl config path = config.baseUrl ++ path) ∧
    ∀ (client : HttpClient) (curl : Option Curl) (range : Option Bytes) (opts : Options),
      client.impl = some ⟨config, curl⟩ → (client.perform path range).sent = some opts →
        opts.url = requestUrl config path := by
  have hrelative : ¬ IsAbsolute path → requestUrl config path = config.baseUrl ++ path := by
    intro h
    rw [requestUrl, if_neg (mt (isAbsoluteUrl_iff path).mp h)]
  refine ⟨isAbsoluteUrl_iff path, ?_, hrelative, ?_, ?_⟩
  · intro h
    rw [requestUrl, if_pos ((isAbsoluteUrl_iff path).mpr h)]
  · rintro c hc hletter
    refine hrelative ?_
    rintro ⟨S, R, rfl, ⟨first, hfirst, hfirstLetter⟩, -⟩
    have hhead : first ∈ (S ++ ascii "://" ++ R).head? := by
      cases S with
      | nil => exact absurd hfirst (by simp)
      | cons a S => exact hfirst
    obtain rfl := Option.mem_unique hc hhead
    exact hletter hfirstLetter
  · intro client curl range opts himpl hsent
    obtain ⟨config', curl', hsend, rfl⟩ := sent_perform_iff.mp hsent
    have heq := Option.some.inj (himpl.symm.trans hsend.impl_eq)
    rw [(Impl.mk.inj heq).1]
    rfl

end GribCpp.Http
