import RecencyCache.Proofs.Table.Access
import RecencyCache.Table.Requests

/-! # Histories of a table

  A history is the list of requests that a table has served. `run` serves
  one, and stops where a request faults; `after` is the table that a request
  leaves in either case.

  The peak of a history is the largest number of keys that the table has
  held at a time since it was last cleared. What every request keeps, every
  history keeps (`run_keeps`), also if it is said in terms of the peak.
-/

namespace RecencyCache.Table

variable {K V : Type} [BEq K] [OwnsMemory V]

/-- Serves one request after the other. -/
def run : List (Request K V) → TableM K V (List (Response K V))
  | [] => return []
  | r :: rs => do
    let answer ← handle r
    return answer :: (← run rs)

/-- The table that a request leaves behind, with or without a fault. -/
def after (t : Table K V) (r : Request K V) : Table K V :=
  match handle r t with
  | .ok _ t' => t'
  | .error _ t' => t'

/-- The highest count so far, once a request has left table `t`. Clearing starts the count over. -/
def crest (best : Nat) (t : Table K V) : Request K V → Nat
  | .clear => 0
  | _ => max best t.size

/-- The largest number of keys since the last clearing, in a history that goes on from table `t`
    with `best` keys as the largest number so far. -/
def peak (best : Nat) (t : Table K V) : List (Request K V) → Nat
  | [] => best
  | r :: rs => peak (crest best (t.after r) r) (t.after r) rs

theorem after_of_ok {t t' : Table K V} {r : Request K V} {a : Response K V}
    (h : handle r t = .ok a t') : t.after r = t' := by
  unfold after
  rw [h]

/-- A history goes on from where its first request ended. -/
theorem run_cons {t t' t'' : Table K V} {r : Request K V} {rs : List (Request K V)}
    {a : Response K V} {as : List (Response K V)} (h : handle r t = .ok a t')
    (hs : run rs t' = .ok as t'') : run (r :: rs) t = .ok (a :: as) t'' := by
  unfold run
  rw [bind_of_ok h, bind_of_ok hs]
  rfl

/-- If every request is served and keeps what is said of the table and its peak, so does every
    history. -/
theorem run_keeps {P : Nat → Table K V → Prop}
    (hstep : ∀ best t r, P best t → ∃ a t', handle r t = .ok a t' ∧ P (crest best t' r) t')
    (rs : List (Request K V)) {best : Nat} {t : Table K V} (h : P best t) :
    ∃ answers t', run rs t = .ok answers t' ∧ P (peak best t rs) t' := by
  -- On the requests: the peak so far goes along with the table.
  induction rs generalizing best t with
  | nil => exact ⟨[], t, rfl, h⟩
  | cons r rs ih =>
    obtain ⟨a, t₁, hrun, h₁⟩ := hstep best t r h
    obtain ⟨answers, t₂, hruns, h₂⟩ := ih h₁
    refine ⟨a :: answers, t₂, run_cons hrun hruns, ?_⟩
    unfold peak
    rw [after_of_ok hrun]
    exact h₂

end RecencyCache.Table
