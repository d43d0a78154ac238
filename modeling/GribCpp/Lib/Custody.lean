/-
# Shared and exclusive custody of resources

Holders keep resources: some are exclusive, kept by one holder at a time, the others are shared
and live as long as anyone keeps them.  Whoever keeps a resource also keeps the one on whose
behalf it was issued.  What is live is then what somebody keeps, and the lemmas below say which
operations of the holders keep it so: taking what has just been issued, sharing, giving up a
share, and releasing as the last holder.
-/
import GribCpp.Lib.Resources

namespace GribCpp.Resources

variable {κ ρ : Type*}

/-- The owner of a live resource is live. -/
lemma Disciplined.live_owner {t : List (Effect ρ)} {r q : ρ} (h : Disciplined t)
    (hr : Live t r) (hissue : .issue r (some q) ∈ t) : Live t q := by
  induction h with
  | nil => exact absurd hissue List.not_mem_nil
  | @snoc t e ht he ih =>
    rw [List.mem_append, List.mem_singleton] at hissue
    rcases hissue with hold | rfl
    · have hlive : Live t q := by
        refine ih ⟨⟨_, hold⟩, fun hmem => hr.2 (by simp [hmem])⟩ hold
      refine hlive.snoc ?_
      rintro rfl
      exact hr.2 (by simp [he.2 r hold])
    · exact (he.2 q rfl).snoc (by simp)

/-- What is live is what somebody keeps, together with its owner; what is exclusive is kept
once. -/
structure Custody (exclusive : Set ρ) (holds : κ → Set ρ) (t : List (Effect ρ)) : Prop where
  disciplined : Disciplined t
  live_iff : ∀ r, Live t r ↔ ∃ k, r ∈ holds k
  covered : ∀ k r q, r ∈ holds k → .issue r (some q) ∈ t → q ∈ holds k
  once : ∀ r ∈ exclusive, ∀ k k', r ∈ holds k → r ∈ holds k' → k = k'

namespace Custody

variable {exclusive : Set ρ} {holds : κ → Set ρ} {t : List (Effect ρ)} {k k' : κ} {r : ρ}

/-- Nobody keeps anything, and nothing has happened. -/
lemma nil : Custody exclusive (fun _ : κ => (∅ : Set ρ)) [] := by
  refine ⟨.nil, fun r => iff_of_false ?_ (by simp), by simp, by simp⟩
  rintro ⟨⟨owner, hmem⟩, -⟩
  exact absurd hmem List.not_mem_nil

variable (h : Custody exclusive holds t)
include h

lemma live (hr : r ∈ holds k) : Live t r := (h.live_iff r).mpr ⟨k, hr⟩

/-- The holders may change places. -/
lemma permute (σ : Equiv.Perm κ) : Custody exclusive (holds ∘ σ) t := by
  refine ⟨h.disciplined, fun r => ?_, fun k r q => h.covered (σ k) r q, fun r hr k k' hk hk' => ?_⟩
  · rw [h.live_iff]
    exact ⟨fun ⟨k, hk⟩ => ⟨σ.symm k, by simpa using hk⟩, fun ⟨k, hk⟩ => ⟨σ k, hk⟩⟩
  · exact σ.injective (h.once r hr _ _ hk hk')

/-- What is kept may be used. -/
lemma use {rs : List ρ} (hrs : ∀ r ∈ rs, ∃ k, r ∈ holds k) :
    Custody exclusive holds (t ++ [.use rs]) := by
  refine ⟨h.disciplined.snoc fun r hr => (h.live_iff r).mpr (hrs r hr), fun r => ?_, ?_, h.once⟩
  · rw [← h.live_iff]
    refine ⟨fun hr => ?_, fun hr => hr.snoc (by simp)⟩
    rcases hr.of_snoc with hr | ⟨owner, heq⟩
    · exact hr
    · exact absurd heq (by simp)
  · intro k r q hr hissue
    exact h.covered k r q hr (by simpa using hissue)

variable [DecidableEq κ]

omit h in
lemma mem_update_insert {j : κ} {r' : ρ} :
    r' ∈ Function.update holds k (insert r (holds k)) j ↔ r' ∈ holds j ∨ (j = k ∧ r' = r) := by
  by_cases hj : j = k
  · subst hj
    simp [or_comm]
  · simp [hj]

omit h in
lemma mem_update_sdiff {j : κ} {r' : ρ} :
    r' ∈ Function.update holds k (holds k \ {r}) j ↔ r' ∈ holds j ∧ (j = k → r' ≠ r) := by
  by_cases hj : j = k
  · subst hj
    simp
  · simp [hj]

/-- Who keeps the owner of what is issued may take it. -/
lemma issue {owner : Option ρ} (hnew : ¬ Issued t r) (howner : ∀ q, owner = some q → q ∈ holds k) :
    Custody exclusive (Function.update holds k (insert r (holds k))) (t ++ [.issue r owner]) := by
  have hallowed : Allowed t (.issue r owner) := ⟨hnew, fun q hq => h.live (howner q hq)⟩
  have hdisc := h.disciplined.snoc hallowed
  have hnot : ∀ j, r ∉ holds j := fun j hj => hnew (h.live hj).1
  refine ⟨hdisc, fun r' => ?_, fun j r' q hr' hissue => ?_, fun r' hr' j j' hj hj' => ?_⟩
  · simp only [mem_update_insert]
    constructor
    · intro hlive
      rcases hlive.of_snoc with hlive | ⟨_, heq⟩
      · obtain ⟨j, hj⟩ := (h.live_iff r').mp hlive
        exact ⟨j, Or.inl hj⟩
      · exact ⟨k, Or.inr ⟨rfl, ((Effect.issue.inj heq).1).symm⟩⟩
    · rintro ⟨j, hj | ⟨-, rfl⟩⟩
      · exact (h.live hj).snoc (by simp)
      · refine ⟨⟨owner, by simp⟩, fun hmem => hnew ?_⟩
        exact h.disciplined.issued_of_released (by simpa using hmem)
  · rw [List.mem_append, List.mem_singleton] at hissue
    rw [mem_update_insert] at hr' ⊢
    rcases hr' with hold | ⟨rfl, rfl⟩
    · rcases hissue with hissue | heq
      · exact Or.inl (h.covered j r' q hold hissue)
      · exact absurd hold ((Effect.issue.inj heq).1 ▸ hnot j)
    · rcases hissue with hissue | heq
      · exact absurd ⟨_, hissue⟩ hnew
      · exact Or.inl (howner q (Effect.issue.inj heq).2.symm)
  · rw [mem_update_insert] at hj hj'
    rcases hj with hj | ⟨rfl, rfl⟩ <;> rcases hj' with hj' | ⟨rfl, heq⟩
    · exact h.once r' hr' j j' hj hj'
    · exact absurd hj (heq ▸ hnot j)
    · exact absurd hj' (hnot j')
    · rfl

/-- What is not exclusive may be shared with who keeps its owner. -/
lemma share (hr : r ∈ holds k') (hshared : r ∉ exclusive)
    (howner : ∀ q, .issue r (some q) ∈ t → q ∈ holds k) :
    Custody exclusive (Function.update holds k (insert r (holds k))) t := by
  refine ⟨h.disciplined, fun r' => ?_, fun j r' q hr' hissue => ?_, fun r' hr' j j' hj hj' => ?_⟩
  · rw [h.live_iff]
    simp only [mem_update_insert]
    constructor
    · rintro ⟨j, hj⟩
      exact ⟨j, Or.inl hj⟩
    · rintro ⟨j, hj | ⟨-, rfl⟩⟩
      · exact ⟨j, hj⟩
      · exact ⟨k', hr⟩
  · rw [mem_update_insert] at hr' ⊢
    rcases hr' with hold | ⟨rfl, rfl⟩
    · exact Or.inl (h.covered j r' q hold hissue)
    · exact Or.inl (howner q hissue)
  · rw [mem_update_insert] at hj hj'
    have hne : r' ≠ r := by
      rintro rfl
      exact hshared hr'
    simp only [hne, and_false, or_false] at hj hj'
    exact h.once r' hr' j j' hj hj'

/-- A share may be given up while somebody else has one, by who keeps nothing that was issued on
behalf of it. -/
lemma drop (hother : ∃ j, j ≠ k ∧ r ∈ holds j) (hfree : ∀ c ∈ holds k, .issue c (some r) ∉ t) :
    Custody exclusive (Function.update holds k (holds k \ {r})) t := by
  refine ⟨h.disciplined, fun r' => ?_, fun j r' q hr' hissue => ?_, fun r' hr' j j' hj hj' => ?_⟩
  · rw [h.live_iff]
    simp only [mem_update_sdiff]
    constructor
    · rintro ⟨j, hj⟩
      by_cases heq : r' = r
      · subst heq
        obtain ⟨i, hne, hi⟩ := hother
        exact ⟨i, hi, fun hik => absurd hik hne⟩
      · exact ⟨j, hj, fun _ => heq⟩
    · rintro ⟨j, hj, -⟩
      exact ⟨j, hj⟩
  · rw [mem_update_sdiff] at hr' ⊢
    refine ⟨h.covered j r' q hr'.1 hissue, ?_⟩
    rintro rfl rfl
    exact hfree r' hr'.1 hissue
  · rw [mem_update_sdiff] at hj hj'
    exact h.once r' hr' j j' hj.1 hj'.1

/-- The last holder releases a resource, when it keeps nothing that was issued on behalf of it. -/
lemma release (hr : r ∈ holds k) (hlast : ∀ j, r ∈ holds j → j = k)
    (hfree : ∀ c ∈ holds k, .issue c (some r) ∉ t) :
    Custody exclusive (Function.update holds k (holds k \ {r})) (t ++ [.release r]) := by
  have hallowed : Allowed t (.release r) := by
    refine ⟨h.live hr, fun c hissue => ?_⟩
    -- a live one would be kept together with its owner
    by_contra hnot
    obtain ⟨j, hj⟩ := (h.live_iff c).mp ⟨⟨_, hissue⟩, hnot⟩
    obtain rfl := hlast j (h.covered j c r hj hissue)
    exact hfree c hj hissue
  have hholds : ∀ j r', r' ∈ Function.update holds k (holds k \ {r}) j ↔
      r' ∈ holds j ∧ r' ≠ r := by
    intro j r'
    rw [mem_update_sdiff]
    refine and_congr_right fun hmem => ⟨fun himp heq => ?_, fun hne _ => hne⟩
    exact himp (hlast j (heq ▸ hmem)) heq
  refine ⟨h.disciplined.snoc hallowed, fun r' => ?_, fun j r' q hr' hissue => ?_,
    fun r' hr' j j' hj hj' => ?_⟩
  · simp only [hholds]
    constructor
    · intro hlive
      have hne : r' ≠ r := by
        rintro rfl
        exact hlive.2 (by simp)
      rcases hlive.of_snoc with hlive | ⟨_, heq⟩
      · obtain ⟨j, hj⟩ := (h.live_iff r').mp hlive
        exact ⟨j, hj, hne⟩
      · exact absurd heq (by simp)
    · rintro ⟨j, hj, hne⟩
      exact (h.live hj).snoc (by simpa using hne.symm)
  · rw [hholds] at hr' ⊢
    have hissue' : .issue r' (some q) ∈ t := by simpa using hissue
    refine ⟨h.covered j r' q hr'.1 hissue', ?_⟩
    rintro rfl
    obtain rfl := hlast j (h.covered j r' q hr'.1 hissue')
    exact hfree r' hr'.1 hissue'
  · rw [hholds] at hj hj'
    exact h.once r' hr' j j' hj.1 hj'.1

/-- What a holder keeps goes to one that keeps nothing. -/
lemma transfer {o : κ} (hk : holds k = ∅) :
    Custody exclusive (Function.update (Function.update holds k (holds o)) o ∅) t := by
  have hswap : Function.update (Function.update holds k (holds o)) o ∅
      = holds ∘ Equiv.swap k o := by
    ext1 j
    by_cases hjo : j = o
    · rw [hjo, Function.update_self, Function.comp_apply, Equiv.swap_apply_right, hk]
    · rw [Function.update_of_ne hjo, Function.comp_apply]
      by_cases hjk : j = k
      · rw [hjk, Function.update_self, Equiv.swap_apply_left]
      · rw [Function.update_of_ne hjk, Equiv.swap_apply_of_ne_of_ne hjk hjo]
  rw [hswap]
  exact h.permute _

end Custody

end GribCpp.Resources
