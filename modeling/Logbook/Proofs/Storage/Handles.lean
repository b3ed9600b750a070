import Logbook.Proofs.Storage.Ledger

/-!
# Handles on one disk and on different disks

A handle stays on the disk that it was made on. What a call does to a disk is therefore seen
through all handles on it and through no other, and a handle on a copy of a disk never meets
the one that the copy was taken through.
-/

namespace Logbook

namespace DiskRoom

variable {room : DiskRoom} {handle number : Nat}

/-- The numbers of the disks that the handles are on. -/
def numbers (room : DiskRoom) : List Nat :=
  room.handles.map Handle.disk

/-- Every handle is on a disk of the room. -/
def Housed (room : DiskRoom) : Prop :=
  ∀ number ∈ room.numbers, number < room.disks.length

theorem number?_eq (room : DiskRoom) (handle : Nat) : room.number? handle = room.numbers[handle]? :=
  List.getElem?_map.symm

theorem number?_of_found {h : Handle} (found : room.handles[handle]? = some h) :
    room.number? handle = some h.disk := by
  rw [number?, found, Option.map_some]

theorem Housed.exists_disk (housed : room.Housed) (found : room.number? handle = some number) :
    ∃ disk, room.disks[number]? = some disk := by
  rw [number?_eq] at found
  exact ⟨_, List.getElem?_eq_getElem (housed number (List.mem_of_getElem? found))⟩

/-! ## What a call does -/

/-- What a call makes of a room. -/
inductive Effect (room : DiskRoom) : DiskCall → DiskRoom → Prop where
  | created : Effect room .create (room.addDisk .empty).2
  | missed {call : DiskCall} {handle : Nat} (through : call.handle? = some handle)
      (missing : room.handles[handle]? = none) : Effect room call room
  | worked {handle : Nat} {h : Handle} {disk : Disk} (work : DiskWork) (cursor : Nat)
      (found : room.handles[handle]? = some h) (held : room.disks[h.disk]? = some disk) :
      Effect room (.work handle work)
        ⟨room.disks.set h.disk (disk.after work), room.handles.set handle ⟨h.disk, cursor⟩⟩
  | cloned {handle : Nat} {h : Handle} (found : room.handles[handle]? = some h) :
      Effect room (.clone handle) ⟨room.disks, room.handles ++ [h]⟩
  | forked {handle : Nat} {h : Handle} {disk : Disk} (found : room.handles[handle]? = some h)
      (held : room.disks[h.disk]? = some disk) :
      Effect room (.fork handle) (room.addDisk disk).2
  | crashed {handle : Nat} {h : Handle} {disk : Disk} (point : CrashPoint)
      (found : room.handles[handle]? = some h) (held : room.disks[h.disk]? = some disk) :
      Effect room (.crash handle point) (room.addDisk (disk.crashImage point)).2

theorem call_of_missing {call : DiskCall} (through : call.handle? = some handle)
    (missing : room.handles[handle]? = none) : room.call call = room := by
  have no_device : room.device? handle = none := by
    rw [device?, missing]
    rfl
  cases call with
  | create => cases through
  | work target work =>
      cases through
      rw [DiskRoom.call, onDevice?, missing]
      rfl
  | clone target =>
      cases through
      rw [DiskRoom.call, clone?, missing]
      rfl
  | fork target =>
      cases through
      rw [DiskRoom.call, fork?, no_device]
      rfl
  | crash target point =>
      cases through
      rw [DiskRoom.call, crash?, no_device]
      rfl

section Found

variable {h : Handle} {disk : Disk}

theorem device?_of_held (found : room.handles[handle]? = some h)
    (held : room.disks[h.disk]? = some disk) : room.device? handle = some ⟨disk, h.cursor⟩ := by
  simp only [device?, found, held, Option.bind_eq_bind, Option.bind_some, Option.pure_def]

theorem call_work (found : room.handles[handle]? = some h)
    (held : room.disks[h.disk]? = some disk) (work : DiskWork) :
    room.call (.work handle work) =
      ⟨room.disks.set h.disk (disk.after work),
        room.handles.set handle
          ⟨h.disk, ((⟨disk, h.cursor⟩ : MemoryDevice).perform work).cursor⟩⟩ := by
  simp only [DiskRoom.call, onDevice?, found, held, follow, Option.bind_eq_bind,
    Option.bind_some, Option.pure_def, MemoryDevice.disk_perform]

theorem clone?_of_found (found : room.handles[handle]? = some h) :
    room.clone? handle = some (room.handles.length, ⟨room.disks, room.handles ++ [h]⟩) := by
  rw [clone?, found]
  rfl

theorem crash?_of_held (found : room.handles[handle]? = some h)
    (held : room.disks[h.disk]? = some disk) (point : CrashPoint) :
    room.crash? handle point = some (room.addDisk (disk.crashImage point)) := by
  rw [crash?, device?_of_held found held]
  rfl

/-- A fork is the image of a crash that loses nothing. -/
theorem fork?_eq_crash? (room : DiskRoom) (handle : Nat) :
    room.fork? handle = room.crash? handle .afterWrite :=
  rfl

end Found

theorem effect (housed : room.Housed) (call : DiskCall) : room.Effect call (room.call call) := by
  cases through : call.handle? with
  | none =>
      cases call with
      | create => exact .created
      | work | clone | fork | crash => cases through
  | some handle =>
      cases found : room.handles[handle]? with
      | none =>
          rw [call_of_missing through found]
          exact .missed through found
      | some h =>
          obtain ⟨disk, held⟩ := housed.exists_disk (number?_of_found found)
          cases call with
          | create => cases through
          | work target work =>
              cases through
              rw [call_work found held]
              exact .worked work _ found held
          | clone target =>
              cases through
              rw [DiskRoom.call, clone?_of_found found]
              exact .cloned found
          | fork target =>
              cases through
              rw [DiskRoom.call, fork?_eq_crash?, crash?_of_held found held]
              exact .forked found held
          | crash target point =>
              cases through
              rw [DiskRoom.call, crash?_of_held found held]
              exact .crashed point found held

/-! ## Handles stay on their disks -/

/-- A handle whose cursor moves stays on its disk. -/
theorem numbers_set {h : Handle} (found : room.handles[handle]? = some h) (disks : List Disk)
    (cursor : Nat) : numbers ⟨disks, room.handles.set handle ⟨h.disk, cursor⟩⟩ = room.numbers := by
  have at_handle := number?_of_found found
  rw [number?_eq] at at_handle
  obtain ⟨inside, same⟩ := List.getElem?_eq_some_iff.mp at_handle
  rw [numbers, List.map_set]
  change room.numbers.set handle h.disk = room.numbers
  rw [← same, List.set_getElem_self]

theorem numbers_append (room : DiskRoom) (disks : List Disk) (new : Handle) :
    numbers ⟨disks, room.handles ++ [new]⟩ = room.numbers ++ [new.disk] :=
  List.map_append

theorem getElem?_append_of_some {α : Type} {front : List α} {index : Nat} {element : α}
    (found : front[index]? = some element) (back : List α) :
    (front ++ back)[index]? = some element := by
  rw [List.getElem?_append_left (List.getElem?_eq_some_iff.mp found).1, found]

theorem number?_append (found : room.number? handle = some number) (disks : List Disk)
    (new : Handle) : (⟨disks, room.handles ++ [new]⟩ : DiskRoom).number? handle = some number := by
  rw [number?_eq] at found ⊢
  rw [numbers_append]
  exact getElem?_append_of_some found [new.disk]

theorem number?_concat (room : DiskRoom) (disks : List Disk) (new : Handle) :
    (⟨disks, room.handles ++ [new]⟩ : DiskRoom).number? room.handles.length = some new.disk :=
  number?_of_found List.getElem?_concat_length

theorem housed_addDisk (housed : room.Housed) (disk : Disk) : (room.addDisk disk).2.Housed := by
  intro number member
  have length_eq : (room.addDisk disk).2.disks.length = room.disks.length + 1 :=
    List.length_append
  rw [addDisk, numbers_append, List.mem_append, List.mem_singleton] at member
  rcases member with old | new
  · exact length_eq ▸ Nat.lt_succ_of_lt (housed number old)
  · exact length_eq ▸ new ▸ Nat.lt_succ_self _

section Effect

variable {call : DiskCall} {after : DiskRoom}

theorem Effect.number? (effect : room.Effect call after) (found : room.number? handle = some number) :
    after.number? handle = some number := by
  cases effect with
  | missed => exact found
  | worked work cursor found' held =>
      rw [number?_eq] at found ⊢
      rw [numbers_set found']
      exact found
  | created | forked | crashed | cloned => exact number?_append found _ _

theorem Effect.housed (effect : room.Effect call after) (housed : room.Housed) :
    after.Housed := by
  cases effect with
  | missed => exact housed
  | worked work cursor found held =>
      intro number member
      rw [numbers_set found] at member
      rw [List.length_set]
      exact housed number member
  | cloned found =>
      intro number member
      rw [numbers_append, List.mem_append, List.mem_singleton] at member
      rcases member with old | new
      · exact housed number old
      · rw [new]
        exact housed _ (List.mem_map_of_mem (List.mem_of_getElem? found))
  | created | forked | crashed => exact housed_addDisk housed _

/-- A disk changes only by calls through handles on it. -/
theorem Effect.held {disk : Disk} (effect : room.Effect call after)
    (held : room.disks[number]? = some disk)
    (elsewhere : ∀ handle, call.handle? = some handle → room.number? handle ≠ some number) :
    after.disks[number]? = some disk := by
  cases effect with
  | missed | cloned => exact held
  | @worked handle h _ work cursor found _ =>
      have other : h.disk ≠ number := by
        intro same
        exact elsewhere handle rfl ((number?_of_found found).trans (congrArg some same))
      rw [List.getElem?_set_ne other]
      exact held
  | created | forked | crashed => exact getElem?_append_of_some held _

end Effect

theorem housed_run (housed : room.Housed) (calls : List DiskCall) : (room.run calls).Housed := by
  induction calls generalizing room with
  | nil => exact housed
  | cons call calls ih => exact ih ((effect housed call).housed housed)

theorem number?_run (housed : room.Housed) (found : room.number? handle = some number)
    (calls : List DiskCall) : (room.run calls).number? handle = some number := by
  induction calls generalizing room with
  | nil => exact found
  | cons call calls ih =>
      have effect := effect housed call
      exact ih (effect.housed housed) (effect.number? found)

/-! ## What is seen through handles -/

theorem disk?_eq (room : DiskRoom) (handle : Nat) :
    room.disk? handle = (room.number? handle).bind (room.disks[·]?) := by
  unfold disk? number? device?
  cases room.handles[handle]? with
  | none => rfl
  | some h =>
      change Option.map _ (room.disks[h.disk]?.bind _) = room.disks[h.disk]?
      cases room.disks[h.disk]? <;> rfl

theorem disk?_of_held {disk : Disk} (found : room.number? handle = some number)
    (held : room.disks[number]? = some disk) : room.disk? handle = some disk := by
  rw [disk?_eq, found, Option.bind_some, held]

/-- A handle does not see a call through a handle on another disk. -/
theorem disk?_call {target other : Nat} {call : DiskCall} (housed : room.Housed)
    (found : room.number? handle = some number) (through : call.handle? = some target)
    (on : room.number? target = some other) (ne : number ≠ other) :
    (room.call call).disk? handle = room.disk? handle := by
  have elsewhere : ∀ used, call.handle? = some used → room.number? used ≠ some number := by
    intro used through' same
    cases through.symm.trans through'
    exact ne (Option.some.inj (same.symm.trans on))
  have effect := effect housed call
  obtain ⟨disk, held⟩ := housed.exists_disk found
  rw [disk?_of_held (effect.number? found) (effect.held held elsewhere), disk?_of_held found held]

/-- Whatever is called later, both handles are on one disk and show it. -/
def Together (room : DiskRoom) (first second : Nat) : Prop :=
  ∀ later, (room.run later).SameDisk first second ∧
    ∃ disk, (room.run later).disk? first = some disk ∧ (room.run later).disk? second = some disk

/-- Whatever is called later, the handles are on different disks, and no call through a handle
on the disk of the one changes what the other shows. -/
def Independent (room : DiskRoom) (first second : Nat) : Prop :=
  ∀ later, ¬ (room.run later).SameDisk first second ∧
    ∀ call handle, call.handle? = some handle →
      ((room.run later).SameDisk handle first →
        ((room.run later).call call).disk? second = (room.run later).disk? second) ∧
      ((room.run later).SameDisk handle second →
        ((room.run later).call call).disk? first = (room.run later).disk? first)

variable {first second : Nat}

theorem together_of_number? (housed : room.Housed) (on_first : room.number? first = some number)
    (on_second : room.number? second = some number) : room.Together first second := by
  intro later
  have on_first := number?_run housed on_first later
  have on_second := number?_run housed on_second later
  obtain ⟨disk, held⟩ := (housed_run housed later).exists_disk on_first
  exact ⟨⟨number, on_first, on_second⟩, disk, disk?_of_held on_first held,
    disk?_of_held on_second held⟩

theorem independent_of_number? {other : Nat} (housed : room.Housed)
    (on_first : room.number? first = some number) (on_second : room.number? second = some other)
    (ne : number ≠ other) : room.Independent first second := by
  intro later
  have on_first := number?_run housed on_first later
  have on_second := number?_run housed on_second later
  have housed := housed_run housed later
  constructor
  · rintro ⟨shared, shared_first, shared_second⟩
    cases shared_first.symm.trans on_first
    exact ne (Option.some.inj (shared_second.symm.trans on_second))
  · rintro call handle through
    constructor
    · rintro ⟨shared, on, same⟩
      cases same.symm.trans on_first
      exact disk?_call housed on_second through on ne.symm
    · rintro ⟨shared, on, same⟩
      cases same.symm.trans on_second
      exact disk?_call housed on_first through on ne

/-- A clone and its origin are and remain two handles on one disk. -/
theorem together_clone (housed : room.Housed) (inside : handle < room.handles.length) :
    ∃ clone after, room.clone? handle = some (clone, after) ∧ after.Together handle clone := by
  have found := List.getElem?_eq_getElem inside
  have effect : room.Effect (.clone handle) ⟨room.disks, room.handles ++ [room.handles[handle]]⟩ :=
    .cloned found
  refine ⟨_, _, clone?_of_found found, ?_⟩
  exact together_of_number? (effect.housed housed) (effect.number? (number?_of_found found))
    (number?_concat room _ _)

/-- A handle on a new disk has nothing to do with the handles that were there before. -/
theorem independent_addDisk (housed : room.Housed) (disk : Disk) {other : Nat}
    (inside : other < room.handles.length) :
    (room.addDisk disk).2.Independent other (room.addDisk disk).1 := by
  have found := number?_of_found (List.getElem?_eq_getElem inside)
  have lt : room.handles[other].disk < room.disks.length := by
    rw [number?_eq] at found
    exact housed _ (List.mem_of_getElem? found)
  exact independent_of_number? (housed_addDisk housed disk) (number?_append found _ _)
    (number?_concat room _ _) (Nat.ne_of_lt lt)

/-- The image of a crash shows what the crash leaves, and has nothing to do with the handles
that were there before. -/
theorem independent_crash (housed : room.Housed) (inside : handle < room.handles.length)
    (point : CrashPoint) :
    ∃ image after, room.crash? handle point = some (image, after) ∧
      after.disk? image = (room.disk? handle).map (·.crashImage point) ∧
      ∀ other < room.handles.length, after.Independent other image := by
  have found := List.getElem?_eq_getElem inside
  obtain ⟨disk, held⟩ := housed.exists_disk (number?_of_found found)
  refine ⟨_, _, crash?_of_held found held point, ?_, fun other inside =>
    independent_addDisk housed _ inside⟩
  rw [disk?_of_held (number?_of_found found) held]
  exact disk?_of_held (number?_concat room _ _) List.getElem?_concat_length

end DiskRoom

end Logbook
