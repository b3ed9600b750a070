import Logbook.Chain.Call
import Logbook.Proofs.Chain.Written

/-!
# Who settles outcomes

Calls move records, close windows and make new ones, but none of them settles the outcome
of a window, and a new window has none. Outcomes come from the writer alone: it completes a
window, or it fails and so settles all windows from the tail on that have no outcome yet.
-/

namespace Logbook

namespace Windows

variable {capacity : Capacity} {record : Record} {sync : Bool}

/-- The outcome of the window at a place, if there is one. -/
def outcomeAt (windows : List Window) (place : Nat) : Option WriteOutcome :=
  windows[place]?.bind (·.outcome)

theorem outcomeAt_cons_congr {window window' : Window} {rest rest' : List Window}
    (same : window'.outcome = window.outcome) (same_rest : outcomeAt rest' = outcomeAt rest) :
    outcomeAt (window' :: rest') = outcomeAt (window :: rest) := by
  funext place
  cases place with
  | zero => exact same
  | succ place => exact congrFun same_rest place

theorem outcomeAt_append_congr {front back back' : List Window}
    (same : outcomeAt back' = outcomeAt back) :
    outcomeAt (front ++ back') = outcomeAt (front ++ back) := by
  induction front with
  | nil => exact same
  | cons window front ih => exact outcomeAt_cons_congr rfl ih

/-- A window whose write is not over might as well not be there. -/
theorem outcomeAt_cons_of_none {window : Window} {rest : List Window}
    (unsettled : window.outcome = none) (same_rest : outcomeAt rest = outcomeAt []) :
    outcomeAt (window :: rest) = outcomeAt [] := by
  funext place
  cases place with
  | zero => exact unsettled
  | succ place => exact congrFun same_rest place

theorem outcome_place (window : Window) (record : Record) (sync : Bool) :
    (window.place record sync).2.outcome = window.outcome := by
  have noted : (window.noteSync record.lsn sync).outcome = window.outcome := by
    cases sync <;> rfl
  have placed := window.placed record sync
  generalize window.place record sync = result at placed
  cases placed with
  | below | past => rfl
  | taken | beyond | kept => exact noted

theorem outcomeAt_make (base : Nat) :
    outcomeAt (make capacity record sync base).2 = outcomeAt [] := by
  fun_induction make capacity record sync base with
  | case1 base inside => exact outcomeAt_cons_of_none (outcome_place _ record sync) rfl
  | case2 base outside passed windows made ih =>
      rw [made] at ih
      exact outcomeAt_cons_of_none rfl ih

theorem outcomeAt_offer (windows : List Window) (base : Nat) :
    outcomeAt (offer capacity record sync base windows).2 = outcomeAt windows := by
  induction windows generalizing base with
  | nil => exact outcomeAt_make base
  | cons window rest ih =>
      have same := outcome_place window record sync
      unfold offer
      generalize window.place record sync = result at same
      rcases result with ⟨fault | _ | _ | last, after⟩
      · exact outcomeAt_cons_congr same rfl
      · exact outcomeAt_cons_congr same (ih _)
      · exact outcomeAt_cons_congr same rfl
      · exact outcomeAt_cons_congr same (ih _)

theorem outcomeAt_offerFirst (window : Window) (rest : List Window) :
    outcomeAt (offerFirst capacity record sync window rest).2 = outcomeAt (window :: rest) := by
  have same := outcome_place window record sync
  unfold offerFirst
  generalize window.place record sync = result at same
  rcases result with ⟨fault | _ | _ | last, after⟩
  · exact outcomeAt_cons_congr same rfl
  · exact outcomeAt_cons_congr same rfl
  · exact outcomeAt_cons_congr same rfl
  · exact outcomeAt_cons_congr same (outcomeAt_offer rest (last + 1))

theorem outcomeAt_relocate (base : Nat) (slots : List Slot) (windows : List Window) :
    outcomeAt (relocate capacity base slots windows).2.2 = outcomeAt windows := by
  induction slots generalizing windows with
  | nil => rfl
  | cons slot slots ih =>
      cases slot with
      | empty | moved => exact ih windows
      | filled record sync =>
          have offered : outcomeAt (offer capacity record sync base windows).2 =
              outcomeAt windows := outcomeAt_offer windows base
          unfold relocate
          generalize offer capacity record sync base windows = result at offered
          rcases result with ⟨fault | passed, middle⟩
          · exact offered
          · exact (ih middle).trans offered

theorem outcomeAt_closeFirst (window : Window) (rest : List Window) (last : Nat) :
    outcomeAt (closeFirst capacity window rest last).2 = outcomeAt (window :: rest) := by
  unfold closeFirst
  split
  · rfl
  · split
    · rfl
    · exact outcomeAt_cons_congr rfl (outcomeAt_relocate _ _ rest)

theorem outcomeAt_makeClosed (lsn base : Nat) :
    outcomeAt (makeClosed capacity lsn base) = outcomeAt [] := by
  fun_induction makeClosed capacity lsn base with
  | case1 | case2 => exact outcomeAt_cons_of_none rfl rfl
  | case3 base before outside ih => exact outcomeAt_cons_of_none rfl ih

theorem outcomeAt_closeThrough (windows : List Window) (lsn base : Nat) :
    outcomeAt (closeThrough capacity lsn base windows).2 = outcomeAt windows := by
  induction windows generalizing base with
  | nil => exact outcomeAt_makeClosed lsn base
  | cons window rest ih =>
      unfold closeThrough
      split
      · rfl
      · split
        · exact outcomeAt_closeFirst window rest lsn
        · split
          · rfl
          · exact outcomeAt_cons_congr rfl (ih _)

end Windows

namespace Chain

open Windows

variable {first : Nat} {chain : Chain}

theorem outcomeAt_onSuffix {ε α : Type} (chain : Chain) (place : Nat) (missing : Except ε α)
    (work : Window → List Window → Except ε α × List Window)
    (worked : ∀ window rest, Windows.outcomeAt (work window rest).2 =
      Windows.outcomeAt (window :: rest)) :
    Windows.outcomeAt (chain.onSuffix place missing work).2.windows =
      Windows.outcomeAt chain.windows := by
  unfold onSuffix
  cases suffix : chain.windows.drop place with
  | nil => rfl
  | cons window rest =>
      conv => rhs; rw [← take_append_of_drop suffix]
      exact outcomeAt_append_congr (worked window rest)

theorem outcomeAt_next (place : Nat) :
    Windows.outcomeAt (chain.next place).2.windows = Windows.outcomeAt chain.windows := by
  unfold next
  split
  · rename_i window suffix
    conv => rhs; rw [← take_append_of_drop suffix]
    exact outcomeAt_append_congr (outcomeAt_cons_congr rfl (outcomeAt_cons_of_none rfl rfl))
  · rfl

theorem outcomeAt_append (record : Record) (sync : Bool) :
    Windows.outcomeAt (chain.append record sync).2.windows = Windows.outcomeAt chain.windows := by
  unfold append
  cases chain.failure with
  | some failure => rfl
  | none =>
      generalize (if chain.baseAt chain.head ≤ record.lsn then chain.head else chain.tail) = start
      have worked := outcomeAt_onSuffix chain start (.ok 0)
        (fun window rest => offer chain.capacity record sync window.base (window :: rest))
        (fun window rest => outcomeAt_offer (window :: rest) window.base)
      dsimp only at worked ⊢
      generalize (chain.onSuffix start (.ok 0) fun window rest =>
        offer chain.capacity record sync window.base (window :: rest)) = outcome at worked ⊢
      rcases outcome with ⟨_ | passed, after⟩
      · exact worked
      · dsimp only
        split
        · exact worked
        · exact worked

/-- A call settles nothing. -/
theorem outcomeAt_call (call : Call) :
    Windows.outcomeAt (chain.call call).2.windows = Windows.outcomeAt chain.windows := by
  cases call with
  | append record sync => exact outcomeAt_append record sync
  | appendAt place record sync => exact outcomeAt_onSuffix chain place _ _ outcomeAt_offerFirst
  | closeAt place last =>
      exact outcomeAt_onSuffix chain place _ _ fun window rest => outcomeAt_closeFirst window rest last
  | next place => exact outcomeAt_next place
  | closeThrough lsn =>
      exact outcomeAt_onSuffix chain _ _ _ fun window rest =>
        outcomeAt_closeThrough (window :: rest) lsn window.base

/-! ### What the writer does to outcomes -/

theorem outcomeAt_complete {place : Nat} (inside : place < chain.windows.length) (other : Nat) :
    Windows.outcomeAt (chain.complete place).windows other =
      if other = place then some ((Windows.outcomeAt chain.windows place).getD (.ok ()))
      else Windows.outcomeAt chain.windows other := by
  have found := List.getElem?_eq_getElem inside
  simp only [Windows.outcomeAt, complete, List.getElem?_modify]
  split
  · rename_i same
    subst other
    rw [if_pos rfl, found]
    rfl
  · rename_i different
    rw [if_neg (Ne.symm different), id_map']

theorem window?_fail (sound : Sound first chain) (failure : DurabilityFailure) (place : Nat) :
    (chain.fail failure).window? place =
      if place < chain.tail then chain.window? place
      else (chain.window? place).map (·.settle (.error (chain.failure.getD failure))) := by
  have length : (chain.windows.take chain.tail).length = chain.tail :=
    List.length_take_of_le (Nat.le_of_lt sound.tail_lt)
  simp only [window?, fail, List.getElem?_append, length]
  split
  · rename_i before
    rw [List.getElem?_take, if_pos before]
  · rename_i not_before
    rw [List.getElem?_map, List.getElem?_drop, Nat.add_sub_cancel' (Nat.not_lt.mp not_before)]

/-- A failure settles what was not settled, and that as the first failure. -/
theorem outcomeAt_fail (sound : Sound first chain) (failure : DurabilityFailure) (place : Nat) :
    Windows.outcomeAt (chain.fail failure).windows place = Windows.outcomeAt chain.windows place ∨
      Windows.outcomeAt chain.windows place = none ∧
        Windows.outcomeAt (chain.fail failure).windows place =
          some (.error (chain.failure.getD failure)) := by
  have found := window?_fail sound failure place
  simp only [window?] at found
  rw [Windows.outcomeAt, Windows.outcomeAt, found]
  split
  · exact .inl rfl
  · cases chain.windows[place]? with
    | none => exact .inl rfl
    | some window =>
        cases settled : window.outcome with
        | none => exact .inr ⟨settled, by simp [Window.settle, settled]⟩
        | some outcome => exact .inl (by simp [Window.settle, settled])

/-- What is settled stays. -/
theorem outcomeAt_fail_of_settled (sound : Sound first chain) (failure : DurabilityFailure)
    {place : Nat} {outcome : WriteOutcome}
    (settled : Windows.outcomeAt chain.windows place = some outcome) :
    Windows.outcomeAt (chain.fail failure).windows place = some outcome := by
  rcases outcomeAt_fail sound failure place with same | ⟨unsettled, _⟩
  · exact same.trans settled
  · cases unsettled.symm.trans settled

end Chain

end Logbook
