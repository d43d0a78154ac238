/-
# Runs of a deterministic machine with answers

A machine is its step function `step : σ → ι → ο × σ`: in a state it takes an input,
gives an answer and moves on.  `final` and `answers` are the state and the answers of a
whole run.  The two rules below package the induction over a run: what an invariant
promises holds of every answer, and two machines in lockstep give the same answers.
A run may be restricted by a guard on the inputs; `Admissible` says that every input
passes the guard in the state in which it arrives.
-/
import Mathlib

namespace GribCpp.Machine

variable {σ τ ι ο : Type*}

/-- The state after a run. -/
def final (step : σ → ι → ο × σ) : σ → List ι → σ
  | s, [] => s
  | s, i :: is => final step (step s i).2 is

/-- The answers of a run, in order. -/
def answers (step : σ → ι → ο × σ) : σ → List ι → List ο
  | _, [] => []
  | s, i :: is => (step s i).1 :: answers step (step s i).2 is

/-- The inputs of a run, each with the answer it was given. -/
def trace (step : σ → ι → ο × σ) (s : σ) (is : List ι) : List (ι × ο) :=
  is.zip (answers step s is)

/-- Every input of the run passes the guard in the state in which it arrives. -/
def Admissible (ok : σ → ι → Prop) (step : σ → ι → ο × σ) : σ → List ι → Prop
  | _, [] => True
  | s, i :: is => ok s i ∧ Admissible ok step (step s i).2 is

section Run

variable (step : σ → ι → ο × σ)

@[simp] lemma final_nil (s : σ) : final step s [] = s := rfl

@[simp] lemma final_cons (s : σ) (i : ι) (is : List ι) :
    final step s (i :: is) = final step (step s i).2 is := rfl

@[simp] lemma answers_nil (s : σ) : answers step s [] = [] := rfl

@[simp] lemma answers_cons (s : σ) (i : ι) (is : List ι) :
    answers step s (i :: is) = (step s i).1 :: answers step (step s i).2 is := rfl

@[simp] lemma trace_nil (s : σ) : trace step s [] = [] := rfl

@[simp] lemma trace_cons (s : σ) (i : ι) (is : List ι) :
    trace step s (i :: is) = (i, (step s i).1) :: trace step (step s i).2 is := rfl

@[simp] lemma answers_append (s : σ) (is js : List ι) :
    answers step s (is ++ js) = answers step s is ++ answers step (final step s is) js := by
  induction is generalizing s with
  | nil => rfl
  | cons i is ih => simp [ih]

@[simp] lemma length_answers (s : σ) (is : List ι) :
    (answers step s is).length = is.length := by
  induction is generalizing s with
  | nil => rfl
  | cons i is ih => simp [ih]

/-- A run on translated inputs is a run of the machine that translates them itself. -/
lemma answers_map {κ : Type*} (f : κ → ι) (s : σ) (ks : List κ) :
    answers step s (ks.map f) = answers (fun s k => step s (f k)) s ks := by
  induction ks generalizing s with
  | nil => rfl
  | cons k ks ih => simp [ih]

lemma final_map {κ : Type*} (f : κ → ι) (s : σ) (ks : List κ) :
    final step s (ks.map f) = final (fun s k => step s (f k)) s ks := by
  induction ks generalizing s with
  | nil => rfl
  | cons k ks ih => simp [ih]

lemma admissible_map {κ : Type*} (f : κ → ι) (ok : σ → ι → Prop) (s : σ) (ks : List κ) :
    Admissible ok step s (ks.map f)
      ↔ Admissible (fun s k => ok s (f k)) (fun s k => step s (f k)) s ks := by
  induction ks generalizing s with
  | nil => exact Iff.rfl
  | cons k ks ih => simp only [List.map_cons, Admissible, ih]

/-- A machine whose state is the number of its inputs. -/
lemma answers_counter (f : ℕ → ι → ο) (n : ℕ) (is : List ι) :
    answers (fun n i => (f n i, n + 1)) n is = is.mapIdx fun k i => f (n + k) i := by
  induction is generalizing n with
  | nil => rfl
  | cons i is ih =>
    rw [answers_cons, ih, List.mapIdx_cons, Nat.add_zero]
    congr 2
    funext k i
    rw [Nat.add_assoc, Nat.add_comm 1 k]

end Run

section Rules

variable {step : σ → ι → ο × σ} {step' : τ → ι → ο × τ} {ok : τ → ι → Prop}

/-- **The invariant rule.**  What a step from a state of the invariant promises about its
answer holds of all answers of a run, if every step keeps the invariant. -/
theorem forall_answers {I : σ → Prop} {P : ο → Prop} (hstep : ∀ s i, I s → I (step s i).2)
    (hanswer : ∀ s i, I s → P (step s i).1) {s : σ} (hs : I s) (is : List ι) :
    ∀ o ∈ answers step s is, P o := by
  induction is generalizing s with
  | nil => simp
  | cons i is ih =>
    intro o ho
    rcases List.mem_cons.mp ho with rfl | ho
    · exact hanswer s i hs
    · exact ih (hstep s i hs) o ho

/-- **The simulation rule.**  Two machines whose related states answer alike and stay
related, on every input that the second one's guard admits, give the same answers. -/
theorem simulates {R : σ → τ → Prop}
    (hstep : ∀ s t i, R s t → ok t i → (step s i).1 = (step' t i).1 ∧ R (step s i).2 (step' t i).2)
    {s : σ} {t : τ} (hR : R s t) {is : List ι} (hok : Admissible ok step' t is) :
    answers step s is = answers step' t is ∧ R (final step s is) (final step' t is) := by
  induction is generalizing s t with
  | nil => exact ⟨rfl, hR⟩
  | cons i is ih =>
    obtain ⟨hi, his⟩ := hok
    obtain ⟨hans, hR'⟩ := hstep s t i hR hi
    obtain ⟨hrest, hfin⟩ := ih hR' his
    exact ⟨by rw [answers_cons, answers_cons, hans, hrest], hfin⟩

/-- Without a guard every run is admissible. -/
lemma admissible_true (t : τ) (is : List ι) : Admissible (fun _ _ => True) step' t is := by
  induction is generalizing t with
  | nil => trivial
  | cons i is ih => exact ⟨trivial, ih _⟩

/-- A run is admissible piece by piece. -/
lemma admissible_append {t : τ} {is js : List ι} :
    Admissible ok step' t (is ++ js) ↔
      Admissible ok step' t is ∧ Admissible ok step' (final step' t is) js := by
  induction is generalizing t with
  | nil => simp [Admissible]
  | cons i is ih => simp only [List.cons_append, Admissible, ih, final_cons, and_assoc]

end Rules

end GribCpp.Machine
