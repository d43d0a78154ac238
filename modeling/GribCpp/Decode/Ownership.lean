/-
# Ownership of ecCodes objects

Any number of `GribHandle` objects are constructed, moved, assigned, searched with and
destroyed, in any order.  ecCodes issues a fresh handle for each construction and a fresh
nearest object for each creation that does not return null.  The calls of ecCodes that a run
makes are a disciplined trace of resources, in which a nearest object is issued on behalf of its
handle; what is live is owned by exactly one object, and nothing else is owned.
-/
import GribCpp.Decode.Nearest
import GribCpp.Lib.Resources
import GribCpp.Lib.Transition

namespace GribCpp.Decode

open Resources Transition Sidecar

/-! ## Objects and their operations -/

/-- The objects that are alive, and the calls of ecCodes so far. -/
structure System (κ H N : Type*) where
  objects : κ → Option (GribHandle H N)
  calls : List (Call H N)

/-- The operations on the objects. -/
inductive ObjectOp (κ H N : Type*) where
  | construct (k : κ) (h : H)
  | moveConstruct (k o : κ)
  | moveAssign (k o : κ)
  | nearest (k : κ) (api : NearestApi H N) (lat lon : Double)
  | destroy (k : κ)

section System

variable {κ H N : Type*}

/-- No objects, and no calls. -/
def System.init : System κ H N where
  objects := fun _ => none
  calls := []

variable [DecidableEq κ]

/-- The object gets a content. -/
def System.set (s : System κ H N) (k : κ) (g : Option (GribHandle H N)) : System κ H N :=
  { s with objects := Function.update s.objects k g }

/-- The system makes calls. -/
def System.call (s : System κ H N) (calls : List (Call H N)) : System κ H N :=
  { s with calls := s.calls ++ calls }

/-- The steps of the system.  A construction is one of `GribHandle::from_bytes` or of
`GribFile::next`; what ecCodes issues is fresh. -/
inductive ObjectStep : System κ H N → ObjectOp κ H N → System κ H N → Prop
  | construct {s : System κ H N} {k : κ} {h : H} (hdead : s.objects k = none)
      (hfresh : .handleNew h ∉ s.calls) :
      ObjectStep s (.construct k h) ((s.set k (some (.ofHandle h))).call [.handleNew h])
  | moveConstruct {s : System κ H N} {k o : κ} {g : GribHandle H N} (hdead : s.objects k = none)
      (ho : s.objects o = some g) :
      ObjectStep s (.moveConstruct k o) ((s.set k (some g.move.1)).set o (some g.move.2))
  | moveAssign {s : System κ H N} {k o : κ} {self g : GribHandle H N} (hne : k ≠ o)
      (hk : s.objects k = some self) (ho : s.objects o = some g) :
      ObjectStep s (.moveAssign k o)
        (((s.set k (some (self.moveAssign g).2.1)).set o (some (self.moveAssign g).2.2)).call
          (self.moveAssign g).1)
  | selfAssign {s : System κ H N} {k : κ} {self : GribHandle H N} (hk : s.objects k = some self) :
      ObjectStep s (.moveAssign k k) s
  | nearest {s : System κ H N} {k : κ} {g : GribHandle H N} {api : NearestApi H N}
      {lat lon : Double} (hk : s.objects k = some g)
      (hfresh : ∀ h n, .nearestNew h (some n) ∈ (g.nearestValue api lat lon).calls →
        ∀ h', .nearestNew h' (some n) ∉ s.calls) :
      ObjectStep s (.nearest k api lat lon)
        ((s.set k (some (g.nearestValue api lat lon).handle)).call
          (g.nearestValue api lat lon).calls)
  | destroy {s : System κ H N} {k : κ} {g : GribHandle H N} (hk : s.objects k = some g) :
      ObjectStep s (.destroy k) ((s.set k none).call g.release)

end System

/-! ## The calls as effects on resources -/

section Effects

variable {H N : Type*} {calls pre post : List (Call H N)} {call : Call H N} {h : H} {n : N}

/-- What a call does to the handles and the nearest objects. -/
def effect : Call H N → Effect (H ⊕ N)
  | .handleNew h => .issue (.inl h) none
  | .handleDelete h => .release (.inl h)
  | .nearestNew h none => .use [.inl h]
  | .nearestNew h (some n) => .issue (.inr n) (some (.inl h))
  | .nearestDelete n => .release (.inr n)
  | .nearestFind n h => .use [.inr n, .inl h]

/-- The effects of some calls. -/
abbrev effects (calls : List (Call H N)) : List (Effect (H ⊕ N)) := calls.map effect

lemma effects_snoc {e : Effect (H ⊕ N)} (he : effect call = e) :
    effects (calls ++ [call]) = effects calls ++ [e] := by
  rw [effects, List.map_append, List.map_singleton, he]

lemma effect_issue_inl {owner : Option (H ⊕ N)} :
    effect call = .issue (.inl h) owner ↔ call = .handleNew h ∧ owner = none := by
  cases call with
  | nearestNew h' created => cases created <;> simp [effect]
  | handleNew h' => simp [effect, eq_comm]
  | handleDelete | nearestDelete | nearestFind => simp [effect]

lemma effect_issue_inr {owner : Option (H ⊕ N)} :
    effect call = .issue (.inr n) owner ↔
      ∃ h, call = .nearestNew h (some n) ∧ owner = some (.inl h) := by
  cases call with
  | nearestNew h' created =>
    cases created with
    | none => simp [effect]
    | some n' =>
      constructor
      · intro heq
        simp only [effect, Effect.issue.injEq, Sum.inr.injEq] at heq
        exact ⟨h', by rw [heq.1], heq.2.symm⟩
      · rintro ⟨h, heq, rfl⟩
        rw [heq]
        rfl
  | handleNew | handleDelete | nearestDelete | nearestFind => simp [effect]

lemma effect_release_inl : effect call = .release (.inl h) ↔ call = .handleDelete h := by
  cases call with
  | nearestNew h' created => cases created <;> simp [effect]
  | handleNew | handleDelete | nearestDelete | nearestFind => simp [effect]

lemma effect_release_inr : effect call = .release (.inr n) ↔ call = .nearestDelete n := by
  cases call with
  | nearestNew h' created => cases created <;> simp [effect]
  | handleNew | handleDelete | nearestDelete | nearestFind => simp [effect]

lemma issued_handle_iff : Issued (effects calls) (.inl h) ↔ .handleNew h ∈ calls := by
  simp [Issued, effect_issue_inl]

lemma issue_nearest_iff :
    .issue (.inr n) (some (.inl h)) ∈ effects calls ↔ .nearestNew h (some n) ∈ calls := by
  simp [effect_issue_inr]

lemma issued_nearest_iff :
    Issued (effects calls) (.inr n) ↔ ∃ h, .nearestNew h (some n) ∈ calls := by
  simp only [Issued, List.mem_map, effect_issue_inr]
  constructor
  · rintro ⟨_, _, hmem, h, rfl, rfl⟩
    exact ⟨h, hmem⟩
  · rintro ⟨h, hmem⟩
    exact ⟨_, _, hmem, h, rfl, rfl⟩

/-- A handle is issued on behalf of nothing. -/
lemma owner_of_handle {owner : Option (H ⊕ N)} (hmem : .issue (.inl h) owner ∈ effects calls) :
    owner = none := by
  obtain ⟨call, -, hcall⟩ := List.mem_map.mp hmem
  exact (effect_issue_inl.mp hcall).2

/-- Nothing is issued on behalf of a nearest object. -/
lemma not_issue_for_nearest {r : H ⊕ N} : .issue r (some (.inr n)) ∉ effects calls := by
  intro hmem
  rcases r with h | n'
  · exact absurd (owner_of_handle hmem) (by simp)
  · obtain ⟨call, -, hcall⟩ := List.mem_map.mp hmem
    obtain ⟨h, -, howner⟩ := effect_issue_inr.mp hcall
    exact absurd howner (by simp)

lemma release_handle_iff : .release (.inl h) ∈ effects calls ↔ .handleDelete h ∈ calls := by
  simp [effect_release_inl]

lemma release_nearest_iff : .release (.inr n) ∈ effects calls ↔ .nearestDelete n ∈ calls := by
  simp [effect_release_inr]

end Effects

/-! ## The invariant -/

section Owned

variable {κ H N : Type*}

/-- The object owns the resource. -/
def GribHandle.Owns (g : GribHandle H N) : H ⊕ N → Prop
  | .inl h => g.h = some h
  | .inr n => g.nearest = some n

lemma GribHandle.eq_mk {g : GribHandle H N} {h : Option H} {n : Option N} (hh : g.h = h)
    (hn : g.nearest = n) : g = ⟨h, n⟩ := by
  rw [← hh, ← hn]

@[simp] lemma not_owns_empty (r : H ⊕ N) : ¬ (GribHandle.empty : GribHandle H N).Owns r := by
  cases r <;> simp [GribHandle.Owns, GribHandle.empty]

/-- The contents of the objects own what is live, each resource once, and a nearest object is
owned together with the handle that it was created for. -/
structure Owned (c : κ → GribHandle H N) (calls : List (Call H N)) : Prop where
  disciplined : Disciplined (effects calls)
  live : ∀ k r, (c k).Owns r → Live (effects calls) r
  unique : ∀ k k' r, (c k).Owns r → (c k').Owns r → k = k'
  owned : ∀ r, Live (effects calls) r → ∃ k, (c k).Owns r
  nearest_of : ∀ k n, (c k).nearest = some n →
    ∃ h, (c k).h = some h ∧ .nearestNew h (some n) ∈ calls
  found : ∀ n h, .nearestFind n h ∈ calls → .nearestNew h (some n) ∈ calls

lemma owned_init : Owned (fun _ : κ => (GribHandle.empty : GribHandle H N)) [] := by
  refine ⟨.nil, fun _ r h => absurd h (not_owns_empty r),
    fun _ _ r h => absurd h (not_owns_empty r), ?_,
    fun _ _ h => absurd h (by simp [GribHandle.empty]), fun _ _ h => absurd h (by simp)⟩
  rintro r ⟨⟨owner, hmem⟩, -⟩
  exact absurd hmem (by simp)

namespace Owned

variable {c : κ → GribHandle H N} {calls : List (Call H N)} (hc : Owned c calls)
include hc

/-- The contents may change places. -/
lemma permute (σ : Equiv.Perm κ) : Owned (c ∘ σ) calls := by
  refine ⟨hc.disciplined, fun k r h => hc.live _ r h, fun k k' r h h' => ?_, fun r h => ?_,
    fun k n h => hc.nearest_of _ n h, hc.found⟩
  · exact σ.injective (hc.unique _ _ r h h')
  · obtain ⟨k, hk⟩ := hc.owned r h
    exact ⟨σ.symm k, by rwa [Function.comp_apply, σ.apply_symm_apply]⟩

/-- The nearest object of an object stays one that was created for its handle. -/
lemma nearest_of_snoc {call : Call H N} {k : κ} {n : N} (hn : (c k).nearest = some n) :
    ∃ h, (c k).h = some h ∧ .nearestNew h (some n) ∈ calls ++ [call] := by
  obtain ⟨h, hh, hmem⟩ := hc.nearest_of k n hn
  exact ⟨h, hh, List.mem_append_left _ hmem⟩

/-- Every search stays one with a nearest object that was created for its handle. -/
lemma found_snoc {call : Call H N}
    (hfound : ∀ n h, call = .nearestFind n h → .nearestNew h (some n) ∈ calls) (n : N) (h : H)
    (hmem : .nearestFind n h ∈ calls ++ [call]) : .nearestNew h (some n) ∈ calls ++ [call] := by
  rw [List.mem_append, List.mem_singleton] at hmem
  refine List.mem_append_left _ ?_
  rcases hmem with hmem | heq
  · exact hc.found n h hmem
  · exact hfound n h heq.symm

/-- A call that uses what is live. -/
lemma use {call : Call H N} {rs : List (H ⊕ N)} (he : effect call = .use rs)
    (hlive : ∀ r ∈ rs, Live (effects calls) r)
    (hfound : ∀ n h, call = .nearestFind n h → .nearestNew h (some n) ∈ calls) :
    Owned c (calls ++ [call]) := by
  refine ⟨?_, fun k r h => ?_, hc.unique, fun r h => ?_, fun k n h => ?_, fun n h hmem => ?_⟩
  · rw [effects_snoc he]
    exact hc.disciplined.snoc hlive
  · rw [effects_snoc he]
    exact (hc.live k r h).snoc (by simp)
  · rw [effects_snoc he] at h
    rcases h.of_snoc with h | ⟨owner, h⟩
    · exact hc.owned r h
    · exact absurd h (by simp)
  · exact hc.nearest_of_snoc h
  · exact hc.found_snoc hfound n h hmem

/-- A creation that returns null. -/
lemma nearestNew_none {k : κ} {h : H} (hk : (c k).h = some h) :
    Owned c (calls ++ [.nearestNew h none]) := by
  refine hc.use (show effect (.nearestNew h none) = .use [.inl h] from rfl) ?_ (by simp)
  intro r hr
  rw [List.mem_singleton.mp hr]
  exact hc.live k (.inl h) hk

/-- A search with the nearest object of an object and its handle. -/
lemma nearestFind {k : κ} {h : H} {n : N} (hk : (c k).h = some h) (hn : (c k).nearest = some n) :
    Owned c (calls ++ [.nearestFind n h]) := by
  refine hc.use (show effect (.nearestFind n h) = .use [.inr n, .inl h] from rfl) ?_ ?_
  · intro r hr
    simp only [List.mem_cons, List.not_mem_nil, or_false] at hr
    rcases hr with rfl | rfl
    · exact hc.live k (.inr n) hn
    · exact hc.live k (.inl h) hk
  · intro n' h' heq
    simp only [Call.nearestFind.injEq] at heq
    obtain ⟨rfl, rfl⟩ := heq
    -- the nearest object was created for that handle
    obtain ⟨h'', hh, hmem⟩ := hc.nearest_of k n hn
    obtain rfl := Option.some.inj (hk.symm.trans hh)
    exact hmem

variable [DecidableEq κ]

/-- A call that issues a resource, which an object takes. -/
lemma issue {k : κ} {g : GribHandle H N} {call : Call H N} {r : H ⊕ N} {owner : Option (H ⊕ N)}
    (he : effect call = .issue r owner) (hallowed : Allowed (effects calls) (.issue r owner))
    (hg : ∀ r', g.Owns r' ↔ (c k).Owns r' ∨ r' = r)
    (hof : ∀ n, g.nearest = some n → ∃ h, g.h = some h ∧ .nearestNew h (some n) ∈ calls ++ [call]) :
    Owned (Function.update c k g) (calls ++ [call]) := by
  have hnot : ∀ k', ¬ (c k').Owns r := fun k' h => hallowed.1 (hc.live k' r h).1
  -- what an object owns now
  have howns : ∀ k' r', (Function.update c k g k').Owns r' ↔
      (c k').Owns r' ∨ (k' = k ∧ r' = r) := by
    intro k' r'
    by_cases hk : k' = k
    · subst hk
      simp [hg]
    · simp [hk]
  refine ⟨?_, fun k' r' h => ?_, fun k₁ k₂ r' h₁ h₂ => ?_, fun r' h => ?_, fun k' n h => ?_,
    fun n h hmem => ?_⟩
  · rw [effects_snoc he]
    exact hc.disciplined.snoc hallowed
  · rw [effects_snoc he]
    rcases (howns k' r').mp h with h | ⟨-, rfl⟩
    · exact (hc.live k' r' h).snoc (by simp)
    · refine ⟨⟨owner, by simp⟩, fun hmem => ?_⟩
      have hmem' : .release r' ∈ effects calls := by simpa using hmem
      exact hallowed.1 (hc.disciplined.issued_of_released hmem')
  · rcases (howns k₁ r').mp h₁ with hold₁ | ⟨hk₁, hr₁⟩
    · rcases (howns k₂ r').mp h₂ with hold₂ | ⟨-, hr₂⟩
      · exact hc.unique k₁ k₂ r' hold₁ hold₂
      · rw [hr₂] at hold₁
        exact absurd hold₁ (hnot k₁)
    · rcases (howns k₂ r').mp h₂ with hold₂ | ⟨hk₂, -⟩
      · rw [hr₁] at hold₂
        exact absurd hold₂ (hnot k₂)
      · rw [hk₁, hk₂]
  · rw [effects_snoc he] at h
    rcases h.of_snoc with h | ⟨owner', h⟩
    · obtain ⟨k', hk'⟩ := hc.owned r' h
      exact ⟨k', (howns k' r').mpr (Or.inl hk')⟩
    · exact ⟨k, (howns k r').mpr (Or.inr ⟨rfl, ((Effect.issue.inj h).1).symm⟩)⟩
  · by_cases hk : k' = k
    · subst hk
      rw [Function.update_self] at h ⊢
      exact hof n h
    · rw [Function.update_of_ne hk] at h ⊢
      exact hc.nearest_of_snoc h
  · refine hc.found_snoc (fun n h hcall => ?_) n h hmem
    rw [hcall] at he
    exact absurd he (by simp [effect])

/-- A call that releases a resource, which its object gives up. -/
lemma release {k : κ} {g : GribHandle H N} {call : Call H N} {r : H ⊕ N}
    (he : effect call = .release r) (hallowed : Allowed (effects calls) (.release r))
    (hr : (c k).Owns r) (hg : ∀ r', g.Owns r' ↔ (c k).Owns r' ∧ r' ≠ r)
    (hh : ∀ n, g.nearest = some n → g.h = (c k).h) :
    Owned (Function.update c k g) (calls ++ [call]) := by
  have howns : ∀ k' r', (Function.update c k g k').Owns r' ↔ (c k').Owns r' ∧ r' ≠ r := by
    intro k' r'
    by_cases hk : k' = k
    · subst hk
      simp [hg]
    · rw [Function.update_of_ne hk]
      refine ⟨fun h => ⟨h, ?_⟩, And.left⟩
      rintro rfl
      exact hk (hc.unique k' k r' h hr)
  refine ⟨?_, fun k' r' h => ?_, fun k₁ k₂ r' h₁ h₂ => ?_, fun r' h => ?_, fun k' n h => ?_,
    fun n h hmem => ?_⟩
  · rw [effects_snoc he]
    exact hc.disciplined.snoc hallowed
  · rw [effects_snoc he]
    obtain ⟨h, hne⟩ := (howns k' r').mp h
    exact (hc.live k' r' h).snoc (by simpa using hne.symm)
  · exact hc.unique k₁ k₂ r' ((howns k₁ r').mp h₁).1 ((howns k₂ r').mp h₂).1
  · rw [effects_snoc he] at h
    have hne : r' ≠ r := by
      rintro rfl
      exact h.2 (by simp)
    rcases h.of_snoc with h | ⟨owner', h⟩
    · obtain ⟨k', hk'⟩ := hc.owned r' h
      exact ⟨k', (howns k' r').mpr ⟨hk', hne⟩⟩
    · exact absurd h (by simp)
  · have hown : (c k').nearest = some n := ((howns k' (.inr n)).mp h).1
    obtain ⟨h', hh', hmem⟩ := hc.nearest_of k' n hown
    refine ⟨h', ?_, List.mem_append_left _ hmem⟩
    by_cases hk : k' = k
    · subst hk
      rw [Function.update_self] at h ⊢
      rw [hh n h, hh']
    · rwa [Function.update_of_ne hk]
  · refine hc.found_snoc (fun n h hcall => ?_) n h hmem
    rw [hcall] at he
    exact absurd he (by simp [effect])

/-! ### The calls of ecCodes -/

/-- A handle for an object that owns nothing. -/
lemma handleNew {k : κ} {h : H} (hk : c k = .empty) (hfresh : .handleNew h ∉ calls) :
    Owned (Function.update c k (.ofHandle h)) (calls ++ [.handleNew h]) := by
  refine hc.issue (r := .inl h) rfl ⟨mt issued_handle_iff.mp hfresh, by simp⟩ ?_ ?_
  · rintro (h' | n)
    · simp [hk, GribHandle.Owns, GribHandle.empty, GribHandle.ofHandle, eq_comm]
    · simp [hk, GribHandle.Owns, GribHandle.empty, GribHandle.ofHandle]
  · exact fun n hn => absurd hn (by simp [GribHandle.ofHandle])

/-- A nearest object for the handle of an object that has none. -/
lemma nearestNew {k : κ} {h : H} {n : N} (hk : (c k).h = some h) (hn : (c k).nearest = none)
    (hfresh : ∀ h', .nearestNew h' (some n) ∉ calls) :
    Owned (Function.update c k { c k with nearest := some n })
      (calls ++ [.nearestNew h (some n)]) := by
  have he : effect (.nearestNew h (some n)) = .issue (.inr n) (some (.inl h)) := rfl
  refine hc.issue he ⟨?_, ?_⟩ ?_ ?_
  · rw [issued_nearest_iff]
    exact not_exists.mpr hfresh
  · intro q hq
    rw [← Option.some.inj hq]
    exact hc.live k (.inl h) hk
  · rintro (h' | n')
    · simp [GribHandle.Owns]
    · simp [GribHandle.Owns, hn, eq_comm]
  · intro n' hn'
    obtain rfl := Option.some.inj hn'
    exact ⟨h, hk, by simp⟩

lemma nearestDelete {k : κ} {n : N} (hn : (c k).nearest = some n) :
    Owned (Function.update c k { c k with nearest := none }) (calls ++ [.nearestDelete n]) := by
  refine hc.release (r := .inr n) rfl
    ⟨hc.live k (.inr n) hn, fun _ hmem => absurd hmem not_issue_for_nearest⟩ hn ?_ fun _ _ => rfl
  rintro (h | n')
  · simp [GribHandle.Owns]
  · simp [GribHandle.Owns, hn, eq_comm]

lemma handleDelete {k : κ} {h : H} (hk : (c k).h = some h) (hn : (c k).nearest = none) :
    Owned (Function.update c k .empty) (calls ++ [.handleDelete h]) := by
  refine hc.release (r := .inl h) rfl ⟨hc.live k (.inl h) hk, ?_⟩ hk ?_
    fun n h' => absurd h' (by simp [GribHandle.empty])
  · rintro (h' | n) hmem
    · exact absurd (owner_of_handle hmem) (by simp)
    · -- a nearest object of the handle would be owned together with it
      by_contra hnot
      obtain ⟨k', hk'⟩ := hc.owned (.inr n) ⟨⟨_, hmem⟩, hnot⟩
      obtain ⟨h', hh', hmem'⟩ := hc.nearest_of k' n hk'
      have howner := hc.disciplined.owner_unique hmem (issue_nearest_iff.mpr hmem')
      obtain rfl : h = h' := by simpa using howner
      obtain rfl := hc.unique k' k (.inl h) hh' hk
      rw [GribHandle.Owns, hn] at hk'
      exact absurd hk' (by simp)
  · rintro (h' | n)
    · simp [GribHandle.Owns, GribHandle.empty, hk, eq_comm]
    · simp [GribHandle.Owns, GribHandle.empty, hn]

/-! ### The operations of an object -/

/-- What an object owns is released, the nearest object first. -/
lemma destroy (k : κ) : Owned (Function.update c k .empty) (calls ++ (c k).release) := by
  cases hn : (c k).nearest with
  | none =>
    cases hh : (c k).h with
    | none =>
      have hk : c k = .empty := GribHandle.eq_mk hh hn
      have hupdate : Function.update c k .empty = c := by rw [← hk, Function.update_eq_self]
      rw [GribHandle.release, hn, hh, hupdate, Option.toList_none, Option.toList_none, List.map_nil,
        List.map_nil, List.append_nil, List.append_nil]
      exact hc
    | some h =>
      rw [GribHandle.release, hn, hh]
      exact hc.handleDelete hh hn
  | some n =>
    obtain ⟨h, hh, -⟩ := hc.nearest_of k n hn
    have hdelete := (hc.nearestDelete hn).handleDelete (k := k) (h := h) (by simpa using hh)
      (by simp)
    rw [Function.update_idem] at hdelete
    rw [GribHandle.release, hn, hh]
    simpa using hdelete

/-- A search with an object. -/
lemma search {k : κ} {api : NearestApi H N} {calls' : List (Call H N)} {g : GribHandle H N}
    (hs : Searches (c k) api calls' g)
    (hfresh : ∀ h n, .nearestNew h (some n) ∈ calls' → ∀ h', .nearestNew h' (some n) ∉ calls) :
    Owned (Function.update c k g) (calls ++ calls') := by
  have hsame : Function.update c k (c k) = c := Function.update_eq_self ..
  cases hs with
  | refused =>
    rw [hsame, List.append_nil]
    exact hc
  | cached hh hn =>
    rw [hsame]
    exact hc.nearestFind hh hn
  | notCreated hh hn =>
    rw [hsame]
    exact hc.nearestNew_none hh
  | @givenBack h n hh hn hnew =>
    -- the object owns the new one until it is given back
    have hdelete := (hc.nearestNew hh hn (hfresh h n (by simp))).nearestDelete (k := k) (n := n)
      (by simp)
    have hback : { c k with nearest := none } = c k := (GribHandle.eq_mk rfl hn).symm
    rw [Function.update_idem, Function.update_self, hback] at hdelete
    simpa using hdelete
  | @created h n hh hn hnew =>
    have hfind := (hc.nearestNew hh hn (hfresh h n (by simp))).nearestFind (k := k) (h := h)
      (n := n) (by simpa using hh) (by simp)
    simpa using hfind

/-- The content of an object goes to one that owns nothing. -/
lemma transfer {k o : κ} (hk : c k = .empty) :
    Owned (Function.update (Function.update c k (c o)) o .empty) calls := by
  have hswap : Function.update (Function.update c k (c o)) o .empty = c ∘ Equiv.swap k o := by
    ext1 j
    by_cases hjo : j = o
    · rw [hjo, Function.update_self, Function.comp_apply, Equiv.swap_apply_right, hk]
    · rw [Function.update_of_ne hjo, Function.comp_apply]
      by_cases hjk : j = k
      · rw [hjk, Function.update_self, Equiv.swap_apply_left]
      · rw [Function.update_of_ne hjk, Equiv.swap_apply_of_ne_of_ne hjk hjo]
  rw [hswap]
  exact hc.permute _

end Owned

end Owned

/-! ## Runs -/

section Run

variable {κ H N : Type*} {s u : System κ H N} {k : κ} {op : ObjectOp κ H N}

/-- The content of an object; one that is not alive owns nothing. -/
def System.content (s : System κ H N) (k : κ) : GribHandle H N := (s.objects k).getD .empty

lemma content_of_alive {g : GribHandle H N} (hk : s.objects k = some g) : s.content k = g := by
  rw [System.content, hk, Option.getD_some]

lemma content_of_dead (hk : s.objects k = none) : s.content k = .empty := by
  rw [System.content, hk, Option.getD_none]

lemma content_call (calls : List (Call H N)) : (s.call calls).content = s.content := rfl

lemma calls_call (calls : List (Call H N)) : (s.call calls).calls = s.calls ++ calls := rfl

variable [DecidableEq κ]

lemma content_set (g : Option (GribHandle H N)) :
    (s.set k g).content = Function.update s.content k (g.getD .empty) := by
  ext1 j
  by_cases hj : j = k
  · subst hj
    simp [System.content, System.set]
  · simp [System.content, System.set, hj]

lemma calls_set (g : Option (GribHandle H N)) : (s.set k g).calls = s.calls := rfl

/-- **Every step keeps the ownership.** -/
theorem owned_step (hs : Owned s.content s.calls) (hstep : ObjectStep s op u) :
    Owned u.content u.calls := by
  cases hstep with
  | construct hdead hfresh =>
    rw [content_call, content_set, calls_call, calls_set, Option.getD_some]
    exact hs.handleNew (content_of_dead hdead) hfresh
  | @moveConstruct k o g hdead ho =>
    have hmove := hs.transfer (k := k) (o := o) (content_of_dead hdead)
    rw [content_of_alive ho] at hmove
    rw [content_set, content_set, calls_set, calls_set]
    exact hmove
  | @moveAssign k o self g hne hk ho =>
    -- what the object owns is released, and then it takes over what the other one owns
    have hmove := (hs.destroy k).transfer (k := k) (o := o) (Function.update_self ..)
    rw [Function.update_idem, Function.update_of_ne hne.symm, content_of_alive ho,
      content_of_alive hk] at hmove
    rw [content_call, content_set, content_set, calls_call, calls_set, calls_set]
    exact hmove
  | selfAssign hk => exact hs
  | @nearest k g api lat lon hk hfresh =>
    have hsearches := searches_nearestValue g api lat lon
    rw [← content_of_alive hk] at hsearches hfresh
    have hsearch := hs.search hsearches hfresh
    rw [content_of_alive hk] at hsearch
    rw [content_call, content_set, calls_call, calls_set]
    exact hsearch
  | @destroy k g hk =>
    have hdestroy := hs.destroy k
    rw [content_of_alive hk] at hdestroy
    rw [content_call, content_set, calls_call, calls_set]
    exact hdestroy

theorem owned_run {ops : List (ObjectOp κ H N)} (hrun : Run ObjectStep System.init ops s) :
    Owned s.content s.calls :=
  hrun.invariant (I := fun _ s => Owned s.content s.calls) owned_init
    fun _ _ _ _ hs hstep => owned_step hs hstep

end Run

/-! ## What ecCodes sees -/

section Protocol

variable {H N : Type*}

/-- The call is proper behind the calls `pre`: what is issued is new; what is passed has been issued
and not been deleted; a search passes a nearest object and the handle that it was created for; and
the nearest objects of a handle are deleted before it. -/
def Proper (pre : List (Call H N)) : Call H N → Prop
  | .handleNew h => .handleNew h ∉ pre
  | .handleDelete h =>
    .handleNew h ∈ pre ∧ .handleDelete h ∉ pre ∧
      ∀ n, .nearestNew h (some n) ∈ pre → .nearestDelete n ∈ pre
  | .nearestNew h created =>
    .handleNew h ∈ pre ∧ .handleDelete h ∉ pre ∧
      ∀ n, created = some n → ∀ h', .nearestNew h' (some n) ∉ pre
  | .nearestDelete n => (∃ h, .nearestNew h (some n) ∈ pre) ∧ .nearestDelete n ∉ pre
  | .nearestFind n h =>
    .nearestNew h (some n) ∈ pre ∧ .nearestDelete n ∉ pre ∧
      .handleNew h ∈ pre ∧ .handleDelete h ∉ pre

variable {calls pre post : List (Call H N)} {call : Call H N} {h : H} {n : N}

lemma live_handle_iff :
    Live (effects calls) (.inl h) ↔ .handleNew h ∈ calls ∧ .handleDelete h ∉ calls := by
  rw [Live, issued_handle_iff, release_handle_iff]

lemma live_nearest_iff :
    Live (effects calls) (.inr n) ↔
      (∃ h, .nearestNew h (some n) ∈ calls) ∧ .nearestDelete n ∉ calls := by
  rw [Live, issued_nearest_iff, release_nearest_iff]

lemma effect_injective : Function.Injective (effect (H := H) (N := N)) := by
  intro a b hab
  cases a with
  | handleNew h => exact (effect_issue_inl.mp hab.symm).1.symm
  | handleDelete h => exact (effect_release_inl.mp hab.symm).symm
  | nearestDelete n => exact (effect_release_inr.mp hab.symm).symm
  | nearestNew h created =>
    cases created with
    | some n =>
      obtain ⟨h', hb, howner⟩ := effect_issue_inr.mp hab.symm
      obtain rfl : h = h' := by simpa using howner
      exact hb.symm
    | none =>
      rcases b with _ | _ | ⟨h', _ | n'⟩ | _ | _ <;> simp_all [effect]
  | nearestFind n h => rcases b with _ | _ | ⟨h', _ | n'⟩ | _ | _ <;> simp_all [effect]

/-- What is owned is passed properly. -/
lemma Owned.proper {κ : Type*} {c : κ → GribHandle H N} (hc : Owned c (pre ++ call :: post)) :
    Proper pre call := by
  have hdisc := hc.disciplined
  rw [effects, List.map_append, List.map_cons] at hdisc
  have hallowed := hdisc.allowed
  cases call with
  | handleNew h =>
    intro hmem
    exact hallowed.1 (issued_handle_iff.mpr hmem)
  | handleDelete h =>
    obtain ⟨hnew, hnot⟩ := live_handle_iff.mp hallowed.1
    refine ⟨hnew, hnot, fun n hmem => ?_⟩
    exact release_nearest_iff.mp (hallowed.2 (.inr n) (issue_nearest_iff.mpr hmem))
  | nearestDelete n => exact live_nearest_iff.mp hallowed.1
  | nearestNew h created =>
    cases created with
    | none =>
      obtain ⟨hnew, hnot⟩ := live_handle_iff.mp (hallowed (.inl h) (by simp))
      exact ⟨hnew, hnot, fun n hn => absurd hn (by simp)⟩
    | some n =>
      obtain ⟨hnew, hnot⟩ := live_handle_iff.mp (hallowed.2 (.inl h) rfl)
      refine ⟨hnew, hnot, fun n' hn' h' hmem => ?_⟩
      obtain rfl := Option.some.inj hn'
      exact hallowed.1 (issued_nearest_iff.mpr ⟨h', hmem⟩)
  | nearestFind n h =>
    obtain ⟨⟨h', hnew⟩, hnot⟩ := live_nearest_iff.mp (hallowed (.inr n) (by simp))
    have hfound := hc.found n h (by simp)
    -- created once, and so for the handle that is passed
    have howner := hc.disciplined.owner_unique (issue_nearest_iff.mpr hfound)
      (issue_nearest_iff.mpr (List.mem_append_left _ hnew))
    obtain rfl : h = h' := by simpa using howner
    exact ⟨hnew, hnot, live_handle_iff.mp (hallowed (.inl h) (by simp))⟩

/-- A nearest object is deleted before the handle that it was created for. -/
lemma Owned.deleted_before {κ : Type*} {c : κ → GribHandle H N} (hc : Owned c calls)
    (hn : .nearestNew h (some n) ∈ calls) (hh : .handleDelete h ∈ calls) :
    [.nearestDelete n, .handleDelete h].Sublist calls := by
  obtain ⟨pre, post, rfl⟩ := List.append_of_mem hh
  have hdisc := hc.disciplined
  have hissue := issue_nearest_iff.mpr hn
  rw [effects, List.map_append, List.map_cons] at hdisc hissue
  have hdelete : .nearestDelete n ∈ pre :=
    release_nearest_iff.mp (hdisc.released_before_owner hissue)
  exact (List.singleton_sublist.mpr hdelete).append
    ((List.nil_sublist post).cons_cons (Call.handleDelete h))

variable [DecidableEq H] [DecidableEq N]

/-- What nobody owns has been deleted, once. -/
lemma Owned.deleted {κ : Type*} {c : κ → GribHandle H N} (hc : Owned c calls)
    (hnone : ∀ k, c k = .empty) :
    (∀ h, .handleNew h ∈ calls → calls.count (.handleDelete h) = 1) ∧
    ∀ h n, .nearestNew h (some n) ∈ calls → calls.count (.nearestDelete n) = 1 := by
  have hreleased : ∀ r, Issued (effects calls) r → .release r ∈ effects calls := by
    intro r hr
    by_contra hnot
    obtain ⟨k, hk⟩ := hc.owned r ⟨hr, hnot⟩
    rw [hnone k] at hk
    exact not_owns_empty r hk
  constructor
  · intro h hmem
    have hcount := hc.disciplined.count_release (hreleased _ (issued_handle_iff.mpr hmem))
    exact (List.count_map_of_injective calls effect effect_injective (.handleDelete h)).symm.trans
      hcount
  · intro h n hmem
    have hcount := hc.disciplined.count_release (hreleased _ (issued_nearest_iff.mpr ⟨h, hmem⟩))
    exact (List.count_map_of_injective calls effect effect_injective (.nearestDelete n)).symm.trans
      hcount

/-- **Ownership of ecCodes objects.**  In every run, whatever is alive at its end: every call of
ecCodes is proper where it stands; no two objects own the same; and what an object owns has been
issued, the nearest object for the handle of the same object, and has not been deleted.  When no
object is alive any more, every handle and every nearest object has been deleted exactly once, a
nearest object before its handle. -/
theorem ownership_protocol {κ : Type*} [DecidableEq κ] {ops : List (ObjectOp κ H N)}
    {s : System κ H N} (hrun : Run ObjectStep System.init ops s) :
    (∀ pre call post, s.calls = pre ++ call :: post → Proper pre call) ∧
    (∀ k k' g g' r, s.objects k = some g → s.objects k' = some g' → g.Owns r → g'.Owns r →
      k = k') ∧
    (∀ k g, s.objects k = some g →
      (∀ h, g.h = some h → .handleNew h ∈ s.calls ∧ .handleDelete h ∉ s.calls) ∧
      ∀ n, g.nearest = some n → .nearestDelete n ∉ s.calls ∧
        ∃ h, g.h = some h ∧ .nearestNew h (some n) ∈ s.calls) ∧
    ((∀ k, s.objects k = none) →
      (∀ h, .handleNew h ∈ s.calls → s.calls.count (.handleDelete h) = 1) ∧
      ∀ h n, .nearestNew h (some n) ∈ s.calls → s.calls.count (.nearestDelete n) = 1 ∧
        [.nearestDelete n, .handleDelete h].Sublist s.calls) := by
  have hs := owned_run hrun
  have hproper : ∀ pre call post, s.calls = pre ++ call :: post → Proper pre call := by
    intro pre call post hcalls
    rw [hcalls] at hs
    exact hs.proper
  refine ⟨hproper, ?_, ?_, ?_⟩
  · intro k k' g g' r hk hk' hg hg'
    rw [← content_of_alive hk] at hg
    rw [← content_of_alive hk'] at hg'
    exact hs.unique k k' r hg hg'
  · intro k g hk
    rw [← content_of_alive hk]
    refine ⟨fun h hh => live_handle_iff.mp (hs.live k (.inl h) hh), fun n hn => ?_⟩
    exact ⟨(hs.live k (.inr n) hn |> live_nearest_iff.mp).2, hs.nearest_of k n hn⟩
  · intro hnone
    obtain ⟨hhandles, hnearests⟩ := hs.deleted fun k => content_of_dead (hnone k)
    refine ⟨hhandles, fun h n hmem => ⟨hnearests h n hmem, ?_⟩⟩
    -- the handle was there when the nearest object was created
    obtain ⟨pre, post, hcalls⟩ := List.append_of_mem hmem
    have hnew : .handleNew h ∈ s.calls := by
      rw [hcalls]
      exact List.mem_append_left _ (hproper pre _ post hcalls).1
    refine hs.deleted_before hmem (List.count_pos_iff.mp ?_)
    rw [hhandles h hnew]
    exact Nat.one_pos

/-- The nearest objects are 10 above their handles. -/
def tenAbove : NearestApi ℕ ℕ where
  nearestNew h := (some (h + 10), codesSuccess)
  nearestFind _ _ _ _ := (codesSuccess, [⟨.negZero, .negZero⟩])
  errorMessage _ := []

/-- An assignment over an object that owns a handle and a nearest object. -/
theorem ownership_protocol_assign :
    ∃ (ops : List (ObjectOp Bool ℕ ℕ)) (s : System Bool ℕ ℕ), Run ObjectStep System.init ops s ∧
      s.calls = [.handleNew 1, .nearestNew 1 (some 11), .nearestFind 11 1, .handleNew 2,
        .nearestDelete 11, .handleDelete 1, .handleDelete 2] ∧
      s.calls.count (.handleDelete 2) = 1 ∧
      [.nearestDelete 11, .handleDelete 1].Sublist s.calls := by
  have hrun : Run ObjectStep (System.init : System Bool ℕ ℕ)
      [.construct false 1, .nearest false tenAbove .negZero .negZero, .construct true 2,
        .moveAssign false true, .destroy true, .destroy false] _ :=
    (((((Run.nil.snoc (.construct rfl (by decide))).snoc
      (.nearest rfl fun h n hmem h' => by simp [System.init, System.call, System.set])).snoc
      (.construct rfl (by decide))).snoc (.moveAssign (by decide) rfl rfl)).snoc
      (.destroy rfl)).snoc (.destroy rfl)
  have hend := (ownership_protocol hrun).2.2.2 (by decide)
  exact ⟨_, _, hrun, rfl, hend.1 2 (by decide), (hend.2 1 11 (by decide)).2⟩

end Protocol

end GribCpp.Decode
