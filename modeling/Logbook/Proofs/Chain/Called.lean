import Logbook.Proofs.Chain.Closing

/-!
# What a call on a chain does

A call works on the windows from some place on, and what it does to those it does
to the chain: the windows stay linked, and hold what they held and the record
that the call accepted. The tail and the failure are not for producers to change.
-/

namespace Logbook

namespace Windows

variable {capacity : Capacity} {base bound : Nat}

/-- Windows in front of those that a call works on do not matter to it. -/
theorem Carried.append {front rest after : List Window} {window : Window}
    {gained : Option Record} (linked : Linked capacity base (front ++ window :: rest))
    (carried : Carried capacity window.base bound (window :: rest) gained after) :
    Carried capacity base bound (front ++ window :: rest) gained (front ++ after) := by
  induction front generalizing base with
  | nil =>
      rcases linked with ⟨rfl, _⟩
      exact carried
  | cons first front ih =>
      rcases linked with ⟨rfl, sound, closed, accounted, rest_linked⟩
      have ih := ih rest_linked
      have holds_all : ∀ other, Holds (first :: (front ++ after)) other ↔
          gained = some other ∨ Holds (first :: (front ++ window :: rest)) other := by
        intro other
        rw [holds_cons, holds_cons, ih.holds]
        exact or_left_comm
      have accounted' : Accounted first (front ++ after) :=
        accounted.mono rfl (fun _ slot found occupied => ⟨slot, found, occupied⟩)
          fun other held => (holds_all other).mpr (.inr held)
      constructor
      · exact ⟨rfl, sound, fun opened => absurd (closed opened) (by simp), accounted', ih.linked⟩
      · exact .cons (Window.later_of_fixedEnd_eq rfl rfl) ih.grown
      · exact holds_all
      · rintro record gained_eq ⟨other, held, lsn_eq⟩
        rcases holds_cons.mp held with here | later
        · have := sound.lsn_lt_successorBase here
          have := ih.linked.base_le_of_holds ((ih.holds record).mpr (.inl gained_eq))
          omega
        · exact ih.fresh record gained_eq ⟨other, later, lsn_eq⟩

theorem Linked.of_append {front rest : List Window} {window : Window}
    (linked : Linked capacity base (front ++ window :: rest)) :
    Linked capacity window.base (window :: rest) := by
  induction front generalizing base with
  | nil =>
      rcases linked with ⟨rfl, linked⟩
      exact ⟨rfl, linked⟩
  | cons first front ih => exact ih linked.rest

theorem Grown.length_le {before after : List Window} (grown : Grown bound before after) :
    before.length ≤ after.length := by
  induction grown with
  | made => exact Nat.zero_le _
  | cons _ _ ih => exact Nat.succ_le_succ ih

theorem exists_bound {windows : List Window} (linked : Linked capacity base windows) :
    ∃ bound, ∀ other, Holds windows other → other.lsn ≤ bound := by
  induction windows generalizing base with
  | nil => exact ⟨0, fun other held => absurd held (holds_nil other)⟩
  | cons window rest ih =>
      rcases ih linked.rest with ⟨bound, bounded⟩
      refine ⟨max bound (window.base + capacity.slots), ?_⟩
      intro other held
      rcases holds_cons.mp held with here | later
      · have := linked.first_sound.lsn_lt_of_holds here
        omega
      · have := bounded other later
        omega

/-- Windows share no number, so a number leads to one place. -/
theorem Linked.place_unique {windows : List Window} (linked : Linked capacity base windows)
    {i j : Nat} {left right : Window} {record other : Record} (at_i : windows[i]? = some left)
    (at_j : windows[j]? = some right) (here : left.Holds record) (there : right.Holds other)
    (same : record.lsn = other.lsn) : i = j := by
  have sound_left := linked.sound (List.mem_of_getElem? at_i)
  have sound_right := linked.sound (List.mem_of_getElem? at_j)
  rcases Nat.lt_trichotomy i j with before | rfl | after
  · rcases linked.fixedEnd_lt_base at_i at_j before with ⟨last, closed, last_lt⟩
    have := sound_left.lsn_le_fixedEnd record last here closed
    have := (sound_right.slot_of_holds there).1
    omega
  · rfl
  · rcases linked.fixedEnd_lt_base at_j at_i after with ⟨last, closed, last_lt⟩
    have := sound_right.lsn_le_fixedEnd other last there closed
    have := (sound_left.slot_of_holds here).1
    omega

/-- A record whose number a window has in range is in that window. -/
theorem Linked.holds_of_range {windows : List Window} (linked : Linked capacity base windows)
    {place : Nat} {window : Window} {record : Record} (here : windows[place]? = some window)
    (held : Holds windows record) (base_le : window.base ≤ record.lsn)
    (lt_end : record.lsn < window.successorBase) : window.Holds record := by
  rcases held with ⟨window', member, holds⟩
  rcases List.getElem?_of_mem member with ⟨place', there⟩
  have sound := linked.sound member
  rcases Nat.lt_trichotomy place place' with before | rfl | after
  · rcases linked.fixedEnd_lt_base here there before with ⟨last, closed, last_lt⟩
    have := (sound.slot_of_holds holds).1
    rw [Window.successorBase, closed, Option.getD_some] at lt_end
    omega
  · cases here.symm.trans there
    exact holds
  · rcases linked.fixedEnd_lt_base there here after with ⟨last, closed, last_lt⟩
    have := sound.lsn_le_fixedEnd record last holds closed
    omega

end Windows

namespace Chain

open Windows

/-! ### What no call changes -/

theorem capacity_onSuffix {ε β : Type} (chain : Chain) (place : Nat) (missing : Except ε β)
    (work : Window → List Window → Except ε β × List Window) :
    (chain.onSuffix place missing work).2.capacity = chain.capacity := by
  unfold onSuffix
  split <;> rfl

theorem capacity_append (chain : Chain) (record : Record) (sync : Bool) :
    (chain.append record sync).2.capacity = chain.capacity := by
  unfold append
  cases chain.failure with
  | some failure => rfl
  | none =>
      dsimp only
      generalize (if chain.baseAt chain.head ≤ record.lsn then chain.head else chain.tail) = start
      have kept := chain.capacity_onSuffix start (.ok 0) fun window rest =>
        Windows.offer chain.capacity record sync window.base (window :: rest)
      split
      · exact kept
      · dsimp only
        split <;> exact kept

theorem capacity_next (chain : Chain) (place : Nat) :
    (chain.next place).2.capacity = chain.capacity := by
  unfold next
  split <;> rfl

/-! ### What a call changes -/

/-- The windows of a chain are linked from its first number on, and its tail and
its head are among them. -/
structure Sound (first : Nat) (chain : Chain) : Prop where
  linked : Linked chain.capacity first chain.windows
  tail_lt : chain.tail < chain.windows.length
  head_lt : chain.head < chain.windows.length

/-- A new chain has one window, which is empty. -/
theorem sound_create (first capacity poolLimit : Nat) :
    Sound first (create first capacity poolLimit) :=
  ⟨linked_fresh, Nat.zero_lt_one, Nat.zero_lt_one⟩

theorem not_holds_create (first capacity poolLimit : Nat) (record : Record) :
    ¬ Holds (create first capacity poolLimit).windows record := by
  simp [create, not_holds_fresh]

/-- What a call on a sound chain does. -/
structure Called (first bound : Nat) (before : Chain) (gained : Option Record)
    (after : Chain) : Prop where
  capacity : after.capacity = before.capacity
  tail : after.tail = before.tail
  failure : after.failure = before.failure
  head_lt : after.head < after.windows.length
  carried : Carried before.capacity first bound before.windows gained after.windows

variable {first bound : Nat} {chain : Chain}

theorem Called.sound {before after : Chain} {gained : Option Record}
    (called : Called first bound before gained after) (sound : Sound first before) :
    Sound first after where
  linked := called.capacity ▸ called.carried.linked
  tail_lt := by
    rw [called.tail]
    exact Nat.lt_of_lt_of_le sound.tail_lt called.carried.grown.length_le
  head_lt := called.head_lt

theorem Called.refl (sound : Sound first chain) : Called first bound chain none chain :=
  ⟨rfl, rfl, rfl, sound.head_lt, .refl sound.linked bound⟩

theorem take_append_of_drop {place : Nat} {window : Window} {rest : List Window}
    (suffix : chain.windows.drop place = window :: rest) :
    chain.windows.take place ++ window :: rest = chain.windows := by
  rw [← suffix]
  exact List.take_append_drop place chain.windows

/-- The windows of a sound chain are linked on both sides of a place. -/
theorem Sound.linked_split (sound : Sound first chain) {place : Nat} {window : Window}
    {rest : List Window} (suffix : chain.windows.drop place = window :: rest) :
    Linked chain.capacity first (chain.windows.take place ++ window :: rest) := by
  rw [take_append_of_drop suffix]
  exact sound.linked

/-- A call that works on the windows from some place on does to the chain what it
does to them. -/
theorem called_onSuffix {ε α : Type} (sound : Sound first chain) (place : Nat)
    (missing : Except ε α) (work : Window → List Window → Except ε α × List Window)
    (gained : Except ε α → Option Record)
    (gained_missing : chain.windows.drop place = [] → gained missing = none)
    (carried : ∀ window rest, chain.windows.drop place = window :: rest →
      Linked chain.capacity window.base (window :: rest) →
      Carried chain.capacity window.base bound (window :: rest)
        (gained (work window rest).1) (work window rest).2) :
    Called first bound chain (gained (chain.onSuffix place missing work).1)
      (chain.onSuffix place missing work).2 := by
  unfold onSuffix
  cases suffix : chain.windows.drop place with
  | nil =>
      simp only [gained_missing suffix]
      exact .refl sound
  | cons window rest =>
      have linked := sound.linked_split suffix
      have carried := Carried.append linked (carried window rest suffix linked.of_append)
      rw [take_append_of_drop suffix] at carried
      exact ⟨rfl, rfl, rfl, Nat.lt_of_lt_of_le sound.head_lt carried.grown.length_le, carried⟩

theorem called_appendAt (sound : Sound first chain) (place : Nat) (record : Record)
    (sync : Bool) :
    Called first record.lsn chain
      (bif (chain.appendAt place record sync).1.toOption.getD false then some record else none)
      (chain.appendAt place record sync).2 := by
  have called := called_onSuffix sound place (.ok false) (offerFirst chain.capacity record sync)
    (fun result => bif result.toOption.getD false then some record else none) (fun _ => rfl)
    (fun _ _ _ linked => carried_offerFirst linked)
  unfold appendAt
  generalize chain.onSuffix place (.ok false) (offerFirst chain.capacity record sync) = outcome
    at called ⊢
  rcases outcome with ⟨_ | _, after⟩
  · exact called
  · exact called

theorem called_closeAt (sound : Sound first chain) (place last : Nat) (last_lt : last < bound)
    (bounded : ∀ other, Holds chain.windows other → other.lsn ≤ bound) :
    Called first bound chain none (chain.closeAt place last).2 :=
  called_onSuffix sound _ _ _ (fun _ => none) (fun _ => rfl) fun window _ suffix linked =>
    carried_closeFirst linked last_lt fun other held =>
      bounded other ⟨window, List.mem_of_mem_drop (suffix ▸ List.mem_cons_self), held⟩

theorem called_closeThrough (sound : Sound first chain) (lsn : Nat) (lsn_lt : lsn < bound)
    (bounded : ∀ other, Holds chain.windows other → other.lsn ≤ bound) :
    Called first bound chain none (chain.closeThrough lsn).2 :=
  called_onSuffix sound _ _ _ (fun _ => none) (fun _ => rfl) fun _ _ suffix linked =>
    carried_closeThrough linked lsn_lt fun other held => by
      rw [← suffix] at held
      rcases held with ⟨window, member, held⟩
      exact bounded other ⟨window, List.mem_of_mem_drop member, held⟩

theorem called_next (sound : Sound first chain) (place : Nat)
    (below : ∀ window, chain.windows.drop place = [window] → window.fixedEnd = none →
      window.naturalEnd < bound) :
    Called first bound chain none (chain.next place).2 := by
  unfold next
  split
  · rename_i window suffix
    have linked := sound.linked_split suffix
    have made : Carried chain.capacity window.successorBase bound [] none
        [chain.capacity.fresh window.successorBase] :=
      ⟨linked_fresh, .made (by simp [Capacity.fresh, Window.fresh]),
        by simp [not_holds_fresh], by simp⟩
    have carried := Carried.append linked
      (.past_closed linked.of_append (below window suffix) made)
    rw [take_append_of_drop suffix] at carried
    exact ⟨rfl, rfl, rfl, Nat.lt_of_lt_of_le sound.head_lt carried.grown.length_le, carried⟩
  · exact .refl sound

/-- A place with a base above that of another is a place of the chain. -/
theorem lt_length_of_lt_baseAt {place base : Nat} (lt : base < chain.baseAt place) :
    place < chain.windows.length := by
  apply Nat.lt_of_not_le
  intro beyond
  rw [baseAt, window?, List.getElem?_eq_none beyond] at lt
  exact absurd lt (Nat.not_lt_zero base)

theorem called_append (sound : Sound first chain) (record : Record) (sync : Bool) :
    Called first record.lsn chain
      (bif (chain.append record sync).1.isOk then some record else none)
      (chain.append record sync).2 := by
  unfold append
  cases chain.failure with
  | some failure => exact .refl sound
  | none =>
      generalize start_eq :
        (if chain.baseAt chain.head ≤ record.lsn then chain.head else chain.tail) = start
      have start_lt : start < chain.windows.length := by
        rw [← start_eq]
        split
        · exact sound.head_lt
        · exact sound.tail_lt
      have called := called_onSuffix sound start (.ok 0)
        (fun window rest => offer chain.capacity record sync window.base (window :: rest))
        (fun result => bif result.isOk then some record else none)
        (fun absent => absurd (List.drop_eq_nil_iff.mp absent) (Nat.not_le.mpr start_lt))
        (fun _ _ _ linked => carried_offer linked)
      dsimp only at called ⊢
      generalize (chain.onSuffix start (.ok 0) fun window rest =>
        offer chain.capacity record sync window.base (window :: rest)) = outcome at called ⊢
      rcases outcome with ⟨_ | passed, after⟩
      · exact called
      · dsimp only
        split
        · rename_i lt
          exact { called with head_lt := lt_length_of_lt_baseAt lt }
        · exact called

end Chain

end Logbook
