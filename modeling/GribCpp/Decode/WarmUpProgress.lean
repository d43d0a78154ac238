/-
# The progress of the warm-up

`make_handle_serialized` neither blocks for ever nor spins.  A thread waits only for the mutex,
and whoever holds the mutex can go on; a call takes at most eight steps of its thread, whatever
the other threads do; and once the flag is set, no call that begins takes the mutex.
-/
import GribCpp.Decode.WarmUp

namespace GribCpp.Decode.WarmUp

open Transition

namespace Place

/-- How many steps a thread has still to make, at most. -/
def left : Place → ℕ
  | .idle => 0
  | .load => 7
  | .lock => 6
  | .reload => 5
  | .slow => 4
  | .slowCall => 3
  | .store => 2
  | .unlock again => if again then 3 else 1
  | .fast => 2
  | .fastCall => 1

/-- The thread does not need the mutex if the flag is set. -/
def Free : Place → Prop
  | .idle | .load | .fast | .fastCall => True
  | _ => False

end Place

section Events

variable {κ : Type*}

/-- The thread that makes the step. -/
def Event.thread : Event κ → κ
  | .enter c | .load c | .lock c | .reload c | .begin c | .finish c _ | .store c | .unlock c => c

variable [DecidableEq κ]

/-- Whether the step is one of the thread. -/
def Event.own (c : κ) (e : Event κ) : ℕ := if e.thread = c then 1 else 0

/-- Whether the step is the beginning of a call of the thread. -/
def Event.entered (c : κ) : Event κ → ℕ
  | .enter d => if d = c then 1 else 0
  | _ => 0

end Events

section Steps

variable {κ : Type*} [DecidableEq κ] {s s' : System κ} {e : Event κ} {es : List (Event κ)} {c : κ}

/-- A step moves its own thread only. -/
lemma Step.place_of_ne (h : Step s e s') (hne : e.thread ≠ c) : s'.place c = s.place c := by
  cases h <;> exact Function.update_of_ne (Ne.symm hne) ..

/-- **Every step of a thread brings its call nearer to the end.** -/
lemma Step.left_le (h : Step s e s') (c : κ) :
    (s'.place c).left + e.own c ≤ (s.place c).left + 8 * e.entered c := by
  by_cases hc : e.thread = c
  · subst hc
    have hown : e.own e.thread = 1 := if_pos rfl
    rw [hown]
    cases h with
    | enter hplace => simp [hplace, Event.thread, Event.entered, Place.left]
    | load hplace =>
      simp only [Event.thread, System.move_place_self, hplace]
      split <;> simp [Place.left, Event.entered]
    | lock hplace => simp [hplace, Event.thread, Place.left]
    | reload hplace =>
      simp only [Event.thread, System.move_place_self, hplace]
      split <;> simp [Place.left, Event.entered]
    | finishSlow nonNull hplace =>
      simp only [Event.thread, System.move_place_self, hplace]
      split <;> simp [Place.left, Event.entered]
    | unlock again hplace => cases again <;> simp [hplace, Event.thread, Place.left]
    | beginSlow hplace | store hplace | beginFast hplace | finishFast _ hplace =>
      simp [hplace, Event.thread, Place.left]
  · rw [h.place_of_ne hc, Event.own, if_neg hc]
    omega

/-- A thread that is in a call and does not wait for the mutex can go on. -/
lemma exists_step (hidle : s.place c ≠ .idle) (hlock : s.place c ≠ .lock) :
    ∃ e s', Step s e s' ∧ e.thread = c := by
  cases hplace : s.place c with
  | idle => exact absurd hplace hidle
  | load => exact ⟨_, _, .load hplace, rfl⟩
  | lock => exact absurd hplace hlock
  | reload => exact ⟨_, _, .reload hplace, rfl⟩
  | slow => exact ⟨_, _, .beginSlow hplace, rfl⟩
  | slowCall => exact ⟨_, _, .finishSlow true hplace, rfl⟩
  | store => exact ⟨_, _, .store hplace, rfl⟩
  | unlock again => exact ⟨_, _, .unlock again hplace, rfl⟩
  | fast => exact ⟨_, _, .beginFast hplace, rfl⟩
  | fastCall => exact ⟨_, _, .finishFast true hplace, rfl⟩

/-- **Some thread can always go on**: a thread in a call itself, or the one it waits for. -/
lemma Inv.exists_step (h : Inv es s) (hidle : s.place c ≠ .idle) :
    ∃ e s', Step s e s' ∧
      (e.thread = c ∨ (s.place c = .lock ∧ s.holder = some e.thread)) := by
  by_cases hlock : s.place c = .lock
  · cases hholder : s.holder with
    | none => exact ⟨_, _, .lock hlock hholder, Or.inl rfl⟩
    | some d =>
      have hd : (s.place d).Holds := (h.holder d).mpr hholder
      obtain ⟨e, s', hstep, rfl⟩ := WarmUp.exists_step (s := s) (c := d)
        (fun hp => by rw [hp] at hd; exact hd) fun hp => by rw [hp] at hd; exact hd
      exact ⟨e, s', hstep, Or.inr ⟨hlock, rfl⟩⟩
  · obtain ⟨e, s', hstep, he⟩ := WarmUp.exists_step hidle hlock
    exact ⟨e, s', hstep, Or.inl he⟩

/-- Once the flag is set it stays set, and a thread that does not need the mutex never will. -/
lemma Step.free (h : Step s e s') (hready : s.ready = true) (hfree : (s.place c).Free) :
    s'.ready = true ∧ (s'.place c).Free ∧ e ≠ .lock c := by
  by_cases hc : e.thread = c
  · subst hc
    cases h with
    | enter | beginFast | finishFast =>
      exact ⟨hready, by simp [Event.thread, Place.Free], by simp⟩
    | load hplace => exact ⟨hready, by simp [Event.thread, hready, Place.Free], by simp⟩
    | lock hplace | reload hplace | beginSlow hplace | finishSlow _ hplace | store hplace
    | unlock _ hplace =>
      rw [Event.thread, hplace] at hfree
      exact hfree.elim
  · refine ⟨?_, by rwa [h.place_of_ne hc], fun heq => hc (by rw [heq]; rfl)⟩
    cases h <;> first | exact hready | rfl

lemma run_free (hrun : Run Step s es s') (hready : s.ready = true)
    (hfree : (s.place c).Free) : s'.ready = true ∧ (s'.place c).Free ∧ .lock c ∉ es := by
  refine hrun.invariant (I := fun es s' => s'.ready = true ∧ (s'.place c).Free ∧ .lock c ∉ es)
    ⟨hready, hfree, List.not_mem_nil⟩ ?_
  rintro es t e u ⟨ht, hplace, hnot⟩ hstep
  obtain ⟨hu, hplace', hne⟩ := hstep.free ht hplace
  refine ⟨hu, hplace', ?_⟩
  rw [List.mem_append, List.mem_singleton, not_or]
  exact ⟨hnot, hne.symm⟩

/-- The steps of a thread are paid for by the calls it makes, and by what is left of the first. -/
lemma own_le (hrun : Run Step s es s') :
    (s'.place c).left + (es.map (Event.own c)).sum
      ≤ (s.place c).left + 8 * (es.map (Event.entered c)).sum := by
  have hstep : ∀ t e u, Step t e u →
      (u.place c).left + e.own c ≤ (t.place c).left + 8 * e.entered c :=
    fun t e u h => h.left_le c
  have h := hrun.potential (μ := fun s => (s.place c).left) hstep
  rwa [List.sum_map_mul_left] at h

/-- **A call is short**: from the step that begins it up to the next one that begins a call, a
thread makes at most eight steps, whatever the other threads do in between. -/
lemma call_le {during : List (Event κ)} (hrun : Run Step s ([.enter c] ++ during) s')
    (hduring : .enter c ∉ during) :
    ((Event.enter c :: during).map (Event.own c)).sum ≤ 8 := by
  -- the thread is outside of the function before its call
  have hidle : s.place c = .idle := by
    obtain ⟨t, hstep, -⟩ := hrun.head
    cases hstep with
    | enter hplace => exact hplace
  have hone : ((Event.enter c :: during).map (Event.entered c)).sum = 1 := by
    have hnone : ∀ e ∈ during, e.entered c = 0 := by
      intro e he
      cases e with
      | enter d =>
        refine if_neg fun heq => hduring ?_
        rwa [← heq]
      | _ => rfl
    have hzero : (during.map (Event.entered c)).sum = 0 := by
      rw [List.sum_eq_zero_iff]
      simpa using hnone
    rw [List.map_cons, List.sum_cons, hzero]
    exact if_pos rfl
  have h := own_le (c := c) hrun
  rw [List.singleton_append, hone, hidle] at h
  change _ + _ ≤ 0 + 8 * 1 at h
  omega

end Steps

/-- **The warm-up makes progress.**  In every interleaving of any number of threads: a thread
makes at most eight steps a call, in every single call and so in all of them; as long as a thread is
in a call, it can go on, or waits for the mutex and the thread that holds it can go on; and once the
flag is set, it stays set, and a thread that is outside of the function never takes the mutex
again. -/
theorem warmUp_progress {κ : Type*} [DecidableEq κ] (es : List (Event κ)) (s : System κ)
    (hrun : Run Step System.init es s) :
    (∀ c past during later, es = past ++ (.enter c :: during) ++ later → .enter c ∉ during →
      ((.enter c :: during).map (Event.own c)).sum ≤ 8) ∧
    (∀ c, (es.map (Event.own c)).sum ≤ 8 * (es.map (Event.entered c)).sum) ∧
    (∀ c, s.place c ≠ .idle → ∃ e s', Step s e s' ∧
      (e.thread = c ∨ (s.place c = .lock ∧ s.holder = some e.thread))) ∧
    (s.ready = true → ∀ later s', Run Step s later s' →
      s'.ready = true ∧ ∀ c, s.place c = .idle → .lock c ∉ later) := by
  have hinv : Inv es s := hrun.invariant inv_init fun _ _ _ _ h hstep => h.step hstep
  refine ⟨fun c past during later hes hduring => ?_, fun c => ?_,
    fun c hidle => hinv.exists_step hidle, fun hready later s' hlater => ?_⟩
  · rw [hes] at hrun
    obtain ⟨t, hcall, -⟩ := hrun.cut
    obtain ⟨u, -, hcall⟩ := hcall.cut
    exact call_le hcall hduring
  · have h := own_le (c := c) hrun
    simp only [System.init, Place.left, Nat.zero_add] at h
    omega
  · refine ⟨?_, fun c hidle => ?_⟩
    · exact hlater.invariant (I := fun _ s' => s'.ready = true) hready fun _ t e u ht hstep => by
        cases hstep <;> first | exact ht | rfl
    · exact (run_free hlater hready (by rw [hidle]; trivial)).2.2

/-- One thread is under the mutex, and the other one waits for it. -/
theorem warmUp_progress_waiting :
    ∃ (s : System Bool) (e : Event Bool) (s' : System Bool),
      Run Step System.init [.enter true, .load true, .lock true, .enter false, .load false] s ∧
        s.place false = .lock ∧ Step s e s' ∧
          (e.thread = false ∨ (s.place false = .lock ∧ s.holder = some e.thread)) := by
  have h : Run Step (System.init : System Bool) [] System.init := .nil
  have h := h.snoc (.enter (c := true) rfl)
  have h := h.snoc (.load (c := true) rfl)
  have h := h.snoc (.lock (c := true) rfl rfl)
  have h := h.snoc (.enter (c := false) rfl)
  have h := h.snoc (.load (c := false) rfl)
  obtain ⟨e, s', hstep, hwho⟩ := (warmUp_progress _ _ h).2.2.1 false (by decide)
  exact ⟨_, e, s', h, rfl, hstep, hwho⟩

end GribCpp.Decode.WarmUp
