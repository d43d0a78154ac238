/-
# The warm-up of ecCodes

The model of `make_handle_serialized` in `src/decode/handle.cpp`.  ecCodes loads its definitions
in the first call that creates a handle, and that must not happen in two threads at once.  The
function therefore reads a flag, takes a mutex when the flag is not set, reads the flag again,
and sets it after a call that has returned a handle; a thread that finds the flag set, outside of
the mutex or under it, makes its call without the mutex.

Any number of threads make any number of calls; each load, store, lock and unlock is one step, as
are the beginning and the end of a call of ecCodes, so that a run is any interleaving.
-/
import GribCpp.Lib.Transition

namespace GribCpp.Decode.WarmUp

open Transition

/-- Where a thread stands in `make_handle_serialized`. -/
inductive Place where
  /-- Outside of the function. -/
  | idle
  /-- Before the first load of `g_eccodes_ready`. -/
  | load
  /-- Before the lock of `g_eccodes_init_mtx`. -/
  | lock
  /-- Under the mutex, before the second load. -/
  | reload
  /-- Under the mutex, before its call. -/
  | slow
  /-- Under the mutex, inside of `codes_handle_new_from_message_copy`. -/
  | slowCall
  /-- Under the mutex, with a handle, before the store. -/
  | store
  /-- Under the mutex, before the unlock; its call may still have to be made. -/
  | unlock (again : Bool)
  /-- Without the mutex, before its call. -/
  | fast
  /-- Without the mutex, inside of `codes_handle_new_from_message_copy`. -/
  | fastCall
deriving DecidableEq

namespace Place

/-- The thread is under the mutex. -/
def Holds : Place → Prop
  | .reload | .slow | .slowCall | .store | .unlock _ => True
  | _ => False

/-- The thread is inside of `codes_handle_new_from_message_copy`. -/
def Inside (p : Place) : Prop := p = .slowCall ∨ p = .fastCall

/-- The thread has found the flag set, or has a handle of its own. -/
def Passed : Place → Prop
  | .store | .unlock true | .fast | .fastCall => True
  | _ => False

end Place

/-- The flag, the thread under the mutex, and the threads. -/
structure System (κ : Type*) where
  ready : Bool
  holder : Option κ
  place : κ → Place

/-- The steps of a thread; `finish` has the result of the call, which is null or not. -/
inductive Event (κ : Type*) where
  | enter (thread : κ)
  | load (thread : κ)
  | lock (thread : κ)
  | reload (thread : κ)
  | begin (thread : κ)
  | finish (thread : κ) (nonNull : Bool)
  | store (thread : κ)
  | unlock (thread : κ)

variable {κ : Type*}

/-- The system at the start of the process. -/
def System.init : System κ where
  ready := false
  holder := none
  place := fun _ => .idle

/-- Some call of ecCodes has returned a handle. -/
def HasReturned (es : List (Event κ)) : Prop := ∃ c, .finish c true ∈ es

lemma HasReturned.snoc {es : List (Event κ)} (h : HasReturned es) (e : Event κ) :
    HasReturned (es ++ [e]) := by
  obtain ⟨c, hc⟩ := h
  exact ⟨c, by simp [hc]⟩

section Steps

variable [DecidableEq κ]

/-- The thread moves to a place. -/
def System.move (s : System κ) (c : κ) (p : Place) : System κ :=
  { s with place := Function.update s.place c p }

@[simp] lemma System.move_place_self (s : System κ) (c : κ) (p : Place) :
    (s.move c p).place c = p := Function.update_self ..

@[simp] lemma System.move_place_of_ne (s : System κ) (c : κ) (p : Place) {d : κ} (h : d ≠ c) :
    (s.move c p).place d = s.place d := Function.update_of_ne h ..

/-- The steps of the system. -/
inductive Step : System κ → Event κ → System κ → Prop
  | enter {s : System κ} {c : κ} (hplace : s.place c = .idle) : Step s (.enter c) (s.move c .load)
  | load {s : System κ} {c : κ} (hplace : s.place c = .load) :
      Step s (.load c) (s.move c (if s.ready then .fast else .lock))
  | lock {s : System κ} {c : κ} (hplace : s.place c = .lock) (hfree : s.holder = none) :
      Step s (.lock c) { s.move c .reload with holder := some c }
  | reload {s : System κ} {c : κ} (hplace : s.place c = .reload) :
      Step s (.reload c) (s.move c (if s.ready then .unlock true else .slow))
  | beginSlow {s : System κ} {c : κ} (hplace : s.place c = .slow) :
      Step s (.begin c) (s.move c .slowCall)
  | finishSlow {s : System κ} {c : κ} (nonNull : Bool) (hplace : s.place c = .slowCall) :
      Step s (.finish c nonNull) (s.move c (if nonNull then .store else .unlock false))
  | store {s : System κ} {c : κ} (hplace : s.place c = .store) :
      Step s (.store c) { s.move c (.unlock false) with ready := true }
  | unlock {s : System κ} {c : κ} (again : Bool) (hplace : s.place c = .unlock again) :
      Step s (.unlock c) { s.move c (if again then .fast else .idle) with holder := none }
  | beginFast {s : System κ} {c : κ} (hplace : s.place c = .fast) :
      Step s (.begin c) (s.move c .fastCall)
  | finishFast {s : System κ} {c : κ} (nonNull : Bool) (hplace : s.place c = .fastCall) :
      Step s (.finish c nonNull) (s.move c .idle)

end Steps

/-! ## The invariant -/

/-- The mutex is held by the threads that are under it, and nothing lets a thread pass but a
call that has returned a handle. -/
structure Inv (es : List (Event κ)) (s : System κ) : Prop where
  holder : ∀ c, (s.place c).Holds ↔ s.holder = some c
  ready : s.ready = true → HasReturned es
  passed : ∀ c, (s.place c).Passed → HasReturned es

lemma inv_init : Inv [] (System.init : System κ) :=
  ⟨fun _ => iff_of_false id (by simp [System.init]), fun h => absurd h (by simp [System.init]),
    fun _ h => h.elim⟩

section Inv

variable [DecidableEq κ] {es : List (Event κ)} {e : Event κ} {s s' : System κ} {c : κ} {p : Place}

/-- A thread whose move lets it pass has found the flag set, or has its handle. -/
lemma Inv.passed_move (h : Inv es s) (hp : p.Passed → HasReturned (es ++ [e])) (d : κ) :
    ((s.move c p).place d).Passed → HasReturned (es ++ [e]) := by
  intro hd
  by_cases hdc : d = c
  · subst hdc
    rw [System.move_place_self] at hd
    exact hp hd
  · rw [System.move_place_of_ne s c p hdc] at hd
    exact (h.passed d hd).snoc e

/-- A move that neither takes nor releases the mutex. -/
lemma Inv.move (h : Inv es s) (hholds : p.Holds ↔ (s.place c).Holds)
    (hp : p.Passed → HasReturned (es ++ [e])) : Inv (es ++ [e]) (s.move c p) := by
  refine ⟨fun d => ?_, fun hready => (h.ready hready).snoc e, h.passed_move hp⟩
  by_cases hdc : d = c
  · subst hdc
    rw [System.move_place_self, hholds]
    exact h.holder d
  · rw [System.move_place_of_ne s c p hdc]
    exact h.holder d

/-- **Every step keeps the invariant.** -/
lemma Inv.step (h : Inv es s) (hstep : Step s e s') : Inv (es ++ [e]) s' := by
  cases hstep with
  | enter hplace => exact h.move (by simp [hplace, Place.Holds]) False.elim
  | load hplace =>
    cases hready : s.ready with
    | false => exact h.move (by simp [hplace, Place.Holds]) False.elim
    | true => exact h.move (by simp [hplace, Place.Holds]) fun _ => (h.ready hready).snoc _
  | @lock c hplace hfree =>
    refine ⟨fun d => ?_, fun hready => (h.ready hready).snoc _, h.passed_move False.elim⟩
    by_cases hdc : d = c
    · subst hdc
      simp [Place.Holds]
    · -- nobody else has held the mutex
      have hd := h.holder d
      rw [hfree] at hd
      simp [hdc, hd, Ne.symm hdc]
  | reload hplace =>
    cases hready : s.ready with
    | false => exact h.move (by simp [hplace, Place.Holds]) False.elim
    | true => exact h.move (by simp [hplace, Place.Holds]) fun _ => (h.ready hready).snoc _
  | beginSlow hplace => exact h.move (by simp [hplace, Place.Holds]) False.elim
  | @finishSlow c nonNull hplace =>
    cases nonNull with
    | false => exact h.move (by simp [hplace, Place.Holds]) False.elim
    | true => exact h.move (by simp [hplace, Place.Holds]) fun _ => ⟨c, by simp⟩
  | @store c hplace =>
    have hreturned := (h.passed c (by rw [hplace]; trivial)).snoc (.store c)
    have hmove : Inv (es ++ [.store c]) (s.move c (.unlock false)) :=
      h.move (by simp [hplace, Place.Holds]) False.elim
    exact ⟨hmove.holder, fun _ => hreturned, hmove.passed⟩
  | @unlock c again hplace =>
    have hc : s.holder = some c := (h.holder c).mp (by rw [hplace]; trivial)
    refine ⟨fun d => ?_, fun hready => (h.ready hready).snoc _, h.passed_move fun hp => ?_⟩
    · by_cases hdc : d = c
      · subst hdc
        cases again <;> simp [Place.Holds]
      · have hd := h.holder d
        rw [hc, Option.some.injEq] at hd
        simp [hdc, hd, Ne.symm hdc]
    · cases again with
      | false => exact hp.elim
      | true => exact (h.passed c (by rw [hplace]; trivial)).snoc _
  | @beginFast c hplace =>
    exact h.move (by simp [hplace, Place.Holds]) fun _ =>
      (h.passed c (by rw [hplace]; trivial)).snoc _
  | finishFast nonNull hplace => exact h.move (by simp [hplace, Place.Holds]) False.elim

end Inv

/-- **The warm-up is serialized.**  In every interleaving of any number of threads, two of them
are inside of ecCodes at once only after a call has returned a handle; and the flag is set
only after such a return. -/
theorem warmUp_serialized [DecidableEq κ] (es : List (Event κ)) (s : System κ)
    (hrun : Run Step System.init es s) :
    (∀ a b, a ≠ b → (s.place a).Inside → (s.place b).Inside → HasReturned es) ∧
      (s.ready = true → HasReturned es) := by
  have hinv : Inv es s := hrun.invariant inv_init fun _ _ _ _ h hstep => h.step hstep
  refine ⟨?_, hinv.ready⟩
  rintro a b hne (ha | ha) (hb | hb)
  · -- both would hold the mutex
    have hholder := (hinv.holder a).mp (by rw [ha]; trivial)
    rw [(hinv.holder b).mp (by rw [hb]; trivial)] at hholder
    exact absurd (Option.some.inj hholder).symm hne
  · exact hinv.passed b (by rw [hb]; trivial)
  · exact hinv.passed a (by rw [ha]; trivial)
  · exact hinv.passed a (by rw [ha]; trivial)

/-- A thread warms ecCodes up, and then two threads are inside of it. -/
theorem warmUp_serialized_two :
    ∃ (es : List (Event Bool)) (s : System Bool), Run Step System.init es s ∧
      (s.place true).Inside ∧ (s.place false).Inside ∧ HasReturned es := by
  have h : Run Step (System.init : System Bool) [] System.init := .nil
  have h := h.snoc (.enter (c := true) rfl)
  have h := h.snoc (.load (c := true) rfl)
  have h := h.snoc (.lock (c := true) rfl rfl)
  have h := h.snoc (.reload (c := true) rfl)
  have h := h.snoc (.beginSlow (c := true) rfl)
  have h := h.snoc (.finishSlow (c := true) true rfl)
  have h := h.snoc (.store (c := true) rfl)
  have h := h.snoc (.unlock (c := true) false rfl)
  have h := h.snoc (.enter (c := true) rfl)
  have h := h.snoc (.load (c := true) rfl)
  have h := h.snoc (.beginFast (c := true) rfl)
  have h := h.snoc (.enter (c := false) rfl)
  have h := h.snoc (.load (c := false) rfl)
  have h := h.snoc (.beginFast (c := false) rfl)
  exact ⟨_, _, h, Or.inr rfl, Or.inr rfl,
    (warmUp_serialized _ _ h).1 true false (by decide) (Or.inr rfl) (Or.inr rfl)⟩

end GribCpp.Decode.WarmUp
