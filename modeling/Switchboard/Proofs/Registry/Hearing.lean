import Switchboard.Proofs.Registry.Ending
import Switchboard.Proofs.Registry.Saving

/-!
# The order in which recorders hear of changes

A change that a listener makes in answer to another one is announced to everybody at once, before
the listeners behind it have heard of the first. So a recorder hears every change once, but it hears
the changes in the order in which they were made exactly when no listener ahead of it answers a
change with another. This takes a signal that lets no failure of a listener ahead come back.
-/

namespace Switchboard.Registry

open RecordFile (also)
open WriteQueue (wantedAfter)

def position? (r : Registry) (id : Text) : Option Json :=
  (r.setting? id).map Setting.value

def stays (position : Text → Option Json) (request : SaveRequest) : Bool :=
  match position request.id, request.value with
  | some old, .bool b => old.equalsBool b
  | _, _ => false

/-- Those of some assignments made in turn that change a switch. -/
def changes (position : Text → Option Json) : List SaveRequest → List SaveRequest
  | [] => []
  | request :: rest =>
    if stays position request then changes (also request.id request.value position) rest
    else request :: changes (also request.id request.value position) rest

/-- What the recorder of a tag has written down, as assignments. -/
def heardBy (tag : Text) (record : List Heard) : List SaveRequest :=
  (record.filter fun change => change.tag = tag).map fun change => ⟨change.id, .bool change.value⟩

/-- The changes of switches since an earlier moment, in the order in which they were made. -/
def changesSince (r later : Registry) : List SaveRequest :=
  changes r.position? (later.assigned.drop r.assigned.length)

/-- What the recorder of a tag has heard since an earlier moment. -/
def heardSince (tag : Text) (r later : Registry) : List SaveRequest :=
  heardBy tag (later.heard.drop r.heard.length)

def InStoreOrder (tag : Text) (r later : Registry) : Prop :=
  heardSince tag r later = changesSince r later

instance (tag : Text) (r later : Registry) : Decidable (InStoreOrder tag r later) :=
  inferInstanceAs (Decidable (_ = _))

/-- When a set makes a change, the listeners ahead change nothing in answer to it. -/
def Unanswered (ahead : List Listener) :
    Nat → Text → Json → Registry → Host → Prop
  | 0, _, _, _, _ => True
  | depth + 1, id, value, r, host =>
    ∀ b told later, announcement? id value r host = some (b, told, later) →
      changesSince told (tell (setWithin depth) id b ahead told later).1 = []

def setAll (limit : Nat) (sets : List (Text × Json)) (s : Registry × Host) : Registry × Host :=
  run limit (sets.map fun set => .set set.1 set.2) s

def endAll (limit : Nat) : List (Text × Json) → Registry × Host → Bool
  | [], _ => true
  | (id, value) :: rest, s =>
    endsWithin limit id value s.1 s.2 && endAll limit rest (setWithin limit id value s.1 s.2).2

variable {id tag : Text} {value : Json} {b : Bool} {r later last told : Registry} {host : Host}
  {position : Text → Option Json}

theorem get_eq (r : Registry) (id : Text) :
    r.get id = (r.position? id).elim (.error (.unknownSetting (.str id))) .ok := by
  rw [get, position?]
  cases r.setting? id with
  | none => rfl
  | some s => rfl

/-! ## Changes -/

theorem changes_append (position : Text → Option Json) (requests more : List SaveRequest) :
    changes position (requests ++ more) =
      changes position requests ++ changes (wantedAfter requests position) more := by
  induction requests generalizing position with
  | nil => rfl
  | cons request rest ih =>
    rw [List.cons_append, changes, changes, ih]
    split
    · rfl
    · rfl

theorem head?_changes_ne (h : position id = some (.bool b)) (requests : List SaveRequest) :
    (changes position requests).head? ≠ some ⟨id, .bool b⟩ := by
  induction requests generalizing position with
  | nil => nofun
  | cons request rest ih =>
    obtain ⟨other, moved⟩ := request
    rw [changes]
    split
    · rename_i hStays
      refine ih ?_
      rw [also]
      split
      · rename_i hSame
        subst hSame
        rw [stays, h] at hStays
        cases moved with
        | bool c =>
          obtain rfl : b = c := by simpa using hStays
          rfl
        | _ => cases hStays
      · exact h
    · rename_i hMoves
      intro hEq
      obtain ⟨rfl, rfl⟩ : other = id ∧ moved = .bool b := by simpa using hEq
      exact hMoves (by simp [stays, h])

theorem changes_subset (position : Text → Option Json) (requests : List SaveRequest) :
    changes position requests ⊆ requests := by
  induction requests generalizing position with
  | nil => exact List.Subset.refl _
  | cons request rest ih =>
    rw [changes]
    split
    · exact List.subset_cons_of_subset _ (ih _)
    · exact List.cons_subset_cons _ (ih _)

theorem wantedAfter_of_lastSave? {requests : List SaveRequest} {last : SaveRequest}
    (hBool : ∀ made ∈ requests, made.value.isBool = true)
    (h : lastSave? id (changes position requests) = some last) :
    wantedAfter requests position id = some last.value := by
  induction requests using List.reverseRecOn with
  | nil => cases h
  | append_singleton before request ih =>
    obtain ⟨hBefore, hRequest⟩ := List.forall_mem_append.mp hBool
    rw [wantedAfter, List.foldl_concat]
    change also request.id request.value (wantedAfter before position) id = _
    rw [changes_append, changes, changes] at h
    rw [also]
    split at h
    · rename_i hStays
      rw [List.append_nil] at h
      have hHeld := ih hBefore h
      split
      · rename_i hSame
        -- the assignment repeats the position that the last change has brought about
        obtain ⟨c, hLast⟩ := (Json.isBool_iff _).mp
          (hBefore last (changes_subset _ _ (List.mem_reverse.mp (List.mem_of_find?_eq_some h))))
        obtain ⟨b, hValue⟩ :=
          (Json.isBool_iff _).mp (hRequest request (List.mem_singleton_self _))
        rw [stays, ← hSame, hHeld, hValue, hLast] at hStays
        rw [hValue, hLast]
        exact congrArg (some ∘ Json.bool) (beq_iff_eq.mp hStays).symm
      · exact hHeld
    · rw [lastSave?_append] at h
      split at h
      · rename_i hSame
        rw [if_pos hSame.symm, Option.some.inj h]
      · rename_i hOther
        rw [if_neg (Ne.symm hOther)]
        exact ih hBefore h

theorem heardBy_append (tag : Text) (record more : List Heard) :
    heardBy tag (record ++ more) = heardBy tag record ++ heardBy tag more := by
  rw [heardBy, List.filter_append, List.map_append]
  rfl

/-! ## Stretches of a run -/

/-- How what a recorder hears in a stretch of a run compares with the changes made in it. -/
structure Comparison (Q : List SaveRequest → List SaveRequest → Prop) : Prop where
  nil : Q [] []
  append : ∀ {heard made more rest}, Q heard made → Q more rest → Q (heard ++ more) (made ++ rest)

theorem comparison_eq : Comparison Eq :=
  ⟨rfl, fun h hMore => congrArg₂ _ h hMore⟩

theorem comparison_perm : Comparison List.Perm :=
  ⟨.refl _, fun h hMore => h.append hMore⟩

/-- What happens to a registry in a stretch of a run, when hearing compares with changing so. -/
structure Stretch (Q : List SaveRequest → List SaveRequest → Prop) (tag : Text)
    (r later : Registry) : Prop where
  listeners : later.listeners = r.listeners
  signal : later.signal = r.signal
  assigned : ∃ made, later.assigned = r.assigned ++ made ∧
    (∀ request ∈ made, request.value.isBool) ∧
    later.position? = wantedAfter made r.position? ∧
    ∃ record, later.heard = r.heard ++ record ∧
      Q (heardBy tag record) (changes r.position? made)

variable {Q : List SaveRequest → List SaveRequest → Prop}

theorem Stretch.refl (hQ : Comparison Q) (tag : Text) (r : Registry) : Stretch Q tag r r :=
  ⟨rfl, rfl, [], (List.append_nil _).symm, by simp, rfl, [], (List.append_nil _).symm, hQ.nil⟩

theorem Stretch.trans (hQ : Comparison Q) (h : Stretch Q tag r later)
    (hNext : Stretch Q tag later last) : Stretch Q tag r last := by
  obtain ⟨hListeners, hSignal, made, hAssigned, hBool, hPosition, record, hHeard, hCompare⟩ := h
  obtain ⟨hSame, hStill, more, hMore, hAlso, hMoved, rest, hRest, hLast⟩ := hNext
  rw [hPosition] at hMoved hLast
  refine ⟨hSame.trans hListeners, hStill.trans hSignal, made ++ more, ?_, ?_, ?_, record ++ rest, ?_,
    ?_⟩
  · rw [hMore, hAssigned, List.append_assoc]
  · exact List.forall_mem_append.mpr ⟨hBool, hAlso⟩
  · rw [hMoved, wantedAfter, wantedAfter, wantedAfter, List.foldl_append]
  · rw [hRest, hHeard, List.append_assoc]
  · rw [heardBy_append, changes_append]
    exact hQ.append hCompare hLast

theorem Stretch.compare (h : Stretch Q tag r later) :
    Q (heardSince tag r later) (changesSince r later) := by
  obtain ⟨_, _, made, hAssigned, _, _, record, hHeard, hCompare⟩ := h
  rw [heardSince, changesSince, hAssigned, hHeard, List.drop_left, List.drop_left]
  exact hCompare

theorem Stretch.get_of_lastSave? (h : Stretch Q tag r later) {request : SaveRequest}
    (hLast : lastSave? id (changesSince r later) = some request) :
    later.get id = .ok request.value := by
  obtain ⟨_, _, made, hAssigned, hBool, hPosition, _⟩ := h
  rw [changesSince, hAssigned, List.drop_left] at hLast
  have hHeld : later.position? id = some request.value := by
    rw [hPosition]
    exact wantedAfter_of_lastSave? hBool hLast
  obtain ⟨s, hSetting, hValue⟩ := Option.map_eq_some_iff.mp hHeld
  rw [get, hSetting, ← hValue]

theorem Stretch.since_append {P : List SaveRequest → List SaveRequest → Prop}
    (h : Stretch P tag r later) (hNext : Stretch Q tag later last) :
    heardSince tag r last = heardSince tag r later ++ heardSince tag later last ∧
      changesSince r last = changesSince r later ++ changesSince later last := by
  obtain ⟨_, _, made, hAssigned, _, hPosition, record, hHeard, _⟩ := h
  obtain ⟨_, _, more, hMore, _, _, rest, hRest, _⟩ := hNext
  constructor
  · rw [heardSince, heardSince, heardSince, hRest, hHeard, List.append_assoc, List.drop_left,
      List.drop_left, ← List.append_assoc, List.drop_left, heardBy_append]
  · rw [changesSince, changesSince, changesSince, hMore, hAssigned, List.append_assoc,
      List.drop_left, List.drop_left, ← List.append_assoc, List.drop_left, hPosition,
      changes_append]

theorem Stretch.of_compare {P : List SaveRequest → List SaveRequest → Prop}
    (h : Stretch Q tag r later) (hCompare : P (heardSince tag r later) (changesSince r later)) :
    Stretch P tag r later := by
  obtain ⟨hListeners, hSignal, made, hAssigned, hBool, hPosition, record, hHeard, _⟩ := h
  rw [heardSince, changesSince, hAssigned, hHeard, List.drop_left, List.drop_left] at hCompare
  exact ⟨hListeners, hSignal, made, hAssigned, hBool, hPosition, record, hHeard, hCompare⟩

/-! ## What sets and listeners do in a stretch -/

theorem position?_assign (h : (r.setting? id).isSome = true) (b : Bool) :
    (r.assign id b).position? = also id (.bool b) r.position? := by
  obtain ⟨s, hSetting⟩ := Option.isSome_iff_exists.mp h
  funext name
  rw [position?, setting?_assign, also]
  split
  · rename_i hName
    subst hName
    have hId : s.descriptor.id = name := by simpa using List.find?_some hSetting
    simp [hSetting, hId]
  · rename_i hName
    rw [position?]
    cases hOther : r.setting? name with
    | none => rfl
    | some other =>
      have hId : other.descriptor.id = name := by simpa using List.find?_some hOther
      simp [hId, hName]

theorem told_of_announcement? {outside : Host}
    (h : announcement? id value r host = some (b, told, outside)) :
    ∃ s queue, r.setting? id = some s ∧ s.value.equalsBool b = false ∧
      told = { r.assign id b with queue } := by
  obtain ⟨s, hSetting, _, hMoves, hSubmitted, _⟩ := announcement?_eq_some h
  obtain ⟨queue, hTold⟩ := submit_frame id b (r.assign id b) host
  exact ⟨s, queue, hSetting, hMoves, hSubmitted.trans hTold⟩

theorem stretch_hear (hQ : Comparison Q) (r : Registry) {record : List Heard}
    (h : heardBy tag record = []) :
    Stretch Q tag r { r with heard := r.heard ++ record } := by
  refine ⟨rfl, rfl, [], (List.append_nil _).symm, by simp, rfl, record, rfl, ?_⟩
  rw [h]
  exact hQ.nil

theorem stretch_assign_same (hQ : Comparison Q) {s : Setting} (hSetting : r.setting? id = some s)
    (hSame : s.value.equalsBool b = true) (queue : Option WriteQueue) :
    Stretch Q tag r { r.assign id b with queue } := by
  have hKnown : (r.setting? id).isSome = true := Option.isSome_iff_exists.mpr ⟨s, hSetting⟩
  have hStays : stays r.position? ⟨id, .bool b⟩ = true := by simpa [stays, position?, hSetting]
  refine ⟨rfl, rfl, [⟨id, .bool b⟩], rfl, by simp [Json.isBool], position?_assign hKnown b, [],
    (List.append_nil _).symm, ?_⟩
  rw [changes, if_pos hStays]
  exact hQ.nil

theorem stretch_change {P : List SaveRequest → List SaveRequest → Prop} {s : Setting}
    (hSetting : r.setting? id = some s) (hMoves : s.value.equalsBool b = false)
    {queue : Option WriteQueue} (hTold : told = { r.assign id b with queue })
    (h : Stretch P tag told later)
    (hOwn : Q (heardSince tag told later ++ [⟨id, .bool b⟩])
      (⟨id, .bool b⟩ :: changesSince told later)) :
    Stretch Q tag r { later with heard := later.heard ++ [⟨tag, id, b⟩] } := by
  have hKnown : (r.setting? id).isSome = true := Option.isSome_iff_exists.mpr ⟨s, hSetting⟩
  have hPlaced : told.position? = also id (.bool b) r.position? :=
    hTold ▸ position?_assign hKnown b
  obtain ⟨hListeners, hSignal, made, hAssigned, hBool, hPosition, record, hHeard, _⟩ := h
  rw [heardSince, changesSince, hAssigned, hHeard, List.drop_left, List.drop_left, hPlaced] at hOwn
  rw [hPlaced] at hPosition
  subst hTold
  refine ⟨hListeners, hSignal, ⟨id, .bool b⟩ :: made, ?_, ?_, hPosition, record ++ [⟨tag, id, b⟩],
    ?_, ?_⟩
  · rw [hAssigned, assign, List.append_assoc]
    rfl
  · exact List.forall_mem_cons.mpr ⟨rfl, hBool⟩
  · rw [hHeard, List.append_assoc]
    rfl
  · have hMade : stays r.position? ⟨id, .bool b⟩ = false := by simpa [stays, position?, hSetting]
    rw [heardBy_append, changes, hMade, if_neg Bool.false_ne_true]
    simpa [heardBy] using hOwn

variable {signal : Signal} {listeners : List Listener} {set : Setter} {test : Test}

/-- Sets that pass a test come to stretches of a kind while signal and listeners are those given. -/
def Keeps (Q : List SaveRequest → List SaveRequest → Prop) (tag : Text) (signal : Signal)
    (listeners : List Listener) (test : Test) (set : Setter) : Prop :=
  ∀ id value r host, r.signal = signal → r.listeners = listeners → test id value r host = true →
    Stretch Q tag r (set id value r host).2.1

theorem Keeps.perform (hQ : Comparison Q) (hSet : Keeps Q tag signal listeners test set)
    (reaction : Reaction) (r : Registry) (host : Host) (hSignal : r.signal = signal)
    (hListeners : r.listeners = listeners) (hEvery : everySet set test reaction r host = true) :
    Stretch Q tag r (perform set reaction r host).2.1 := by
  induction reaction generalizing r host with
  | finish => exact .refl hQ tag r
  | fail e => exact .refl hQ tag r
  | set id value next ih =>
    rw [everySet, Bool.and_eq_true] at hEvery
    obtain ⟨hTest, hRest⟩ := hEvery
    have hFirst := hSet id value r host hSignal hListeners hTest
    exact hFirst.trans hQ (ih _ _ _ _ _ (hFirst.signal.trans hSignal)
      (hFirst.listeners.trans hListeners) hRest)

theorem Keeps.answer (hQ : Comparison Q) (hSet : Keeps Q tag signal listeners test set)
    (id : Text) (b : Bool) {listener : Listener} (hTag : .recorder tag ≠ listener) (r : Registry)
    (host : Host) (hSignal : r.signal = signal) (hListeners : r.listeners = listeners)
    (hEvery : everySet set test (listener.reaction id b r) r host = true) :
    Stretch Q tag r (answer set id b listener r host).2.1 := by
  have hEntry : heardBy tag (listener.entry id b) = [] := by
    cases listener with
    | recorder other =>
      have hTags : other ≠ tag := fun hEq => hTag (hEq ▸ rfl)
      simp [Listener.entry, heardBy, hTags]
    | _ => rfl
  rw [answer_state]
  exact (hSet.perform hQ (listener.reaction id b r) r host hSignal hListeners hEvery).trans hQ
    (stretch_hear hQ _ hEntry)

theorem Keeps.announce (hQ : Comparison Q) (hSet : Keeps Q tag signal listeners test set)
    (carrier : Signal) (id : Text) (b : Bool) (part : List Listener) (hTag : .recorder tag ∉ part)
    (r : Registry) (host : Host) (hSignal : r.signal = signal) (hListeners : r.listeners = listeners)
    (hEvery : everyAnswer set test id b part r host = true) :
    Stretch Q tag r (announce carrier set id b part r host).2.1 := by
  induction part generalizing r host with
  | nil => exact .refl hQ tag r
  | cons listener rest ih =>
    rw [List.mem_cons, not_or] at hTag
    obtain ⟨hOther, hRest⟩ := hTag
    rw [everyAnswer, Bool.and_eq_true] at hEvery
    obtain ⟨hReaction, hAnswers⟩ := hEvery
    have hFirst := hSet.answer hQ id b hOther r host hSignal hListeners hReaction
    rw [Registry.announce]
    generalize Registry.answer set id b listener r host = answered at hFirst hAnswers ⊢
    obtain ⟨result, after, later⟩ := answered
    have hNext := ih hRest after later (hFirst.signal.trans hSignal)
      (hFirst.listeners.trans hListeners) hAnswers
    cases result with
    | ok _ => exact hFirst.trans hQ hNext
    | error e =>
      dsimp only
      split
      · exact hFirst
      · exact hFirst.trans hQ hNext

theorem Keeps.tell (hQ : Comparison Q) (hSet : Keeps Q tag signal listeners test set) (id : Text)
    (b : Bool) (part : List Listener) (hTag : .recorder tag ∉ part) (r : Registry) (host : Host)
    (hSignal : r.signal = signal) (hListeners : r.listeners = listeners)
    (hEvery : everyAnswer set test id b part r host = true) :
    Stretch Q tag r (tell set id b part r host).1 := by
  have hTold := hSet.announce hQ {} id b part hTag r host hSignal hListeners hEvery
  rwa [announce_eq_tell fun _ => rfl] at hTold

variable {before after : List Listener}

/-- The recorder hears of a change once those ahead of it have been told, unless a failure of theirs
ends the announcement. -/
theorem announce_recorded (hHears : before = [] ∨ signal.Contains) (set : Setter) (id : Text)
    (b : Bool) (tag : Text) (after : List Listener) (r : Registry) (host : Host) :
    (announce signal set id b (before ++ .recorder tag :: after) r host).2 =
      (announce signal set id b after
        { (tell set id b before r host).1 with
          heard := (tell set id b before r host).1.heard ++ [⟨tag, id, b⟩] }
        (tell set id b before r host).2).2 := by
  rcases hHears with rfl | hContains
  · rfl
  · rw [announce_eq_tell hContains, announce_eq_tell hContains, tell_append]
    rfl

/-- A set whose announcement ends comes to a stretch of the kind its nested sets come to, once the
recorder hears of the change at a time that goes with the kind. -/
theorem Keeps.setWith (hQ : Comparison Q) (hHears : before = [] ∨ signal.Contains)
    (hTag : .recorder tag ∉ before ++ after)
    (hSet : Keeps Q tag signal (before ++ .recorder tag :: after) test set)
    (hSignal : r.signal = signal) (hListeners : r.listeners = before ++ .recorder tag :: after)
    (hEnds : ∀ b told later, announcement? id value r host = some (b, told, later) →
      everyAnswer set test id b told.listeners told later = true)
    (hOwn : ∀ b told later, announcement? id value r host = some (b, told, later) →
      everyAnswer set test id b before told later = true →
      Stretch Q tag told (Registry.tell set id b before told later).1 →
      Q (heardSince tag told (Registry.tell set id b before told later).1 ++ [⟨id, .bool b⟩])
        (⟨id, .bool b⟩ :: changesSince told (Registry.tell set id b before told later).1)) :
    Stretch Q tag r (setWith set id value r host).2.1 := by
  obtain ⟨hBefore, hAfter⟩ : .recorder tag ∉ before ∧ .recorder tag ∉ after := by
    simpa [not_or] using hTag
  rcases setWith_cases id value r host with
    ⟨_, e, hEq⟩ | ⟨_, s, b, hSetting, _, hSame, hEq⟩ | ⟨b, told, later, hSome, hEq⟩
  · rw [hEq]
    exact .refl hQ tag r
  · rw [hEq]
    obtain ⟨queue, hTold⟩ := submit_frame id b (r.assign id b) host
    rw [hTold]
    exact stretch_assign_same hQ hSetting hSame queue
  · obtain ⟨s, queue, hSetting, hMoves, hTold⟩ := told_of_announcement? hSome
    have hThere : told.listeners = before ++ .recorder tag :: after := by
      rw [hTold]
      exact hListeners
    have hStill : told.signal = signal := (signal_of_announcement? hSome).trans hSignal
    have hAnswers := hEnds b told later hSome
    rw [hEq, hThere, hStill, announce_recorded hHears]
    rw [hThere] at hAnswers
    rw [everyAnswer_append, everyAnswer, Bool.and_eq_true, Bool.and_eq_true] at hAnswers
    obtain ⟨hAhead, _, hBehind⟩ := hAnswers
    have hFirst := hSet.tell hQ id b before hBefore told later hStill hThere hAhead
    have hHeard := stretch_change hSetting hMoves hTold hFirst
      (hOwn b told later hSome hAhead hFirst)
    exact hHeard.trans hQ (hSet.announce hQ signal id b after hAfter _ _
      (hHeard.signal.trans hSignal) (hHeard.listeners.trans hListeners) hBehind)

theorem Keeps.setAll (hQ : Comparison Q) {limit : Nat}
    (hSet : Keeps Q tag signal listeners (endsWithin limit) (setWithin limit))
    (sets : List (Text × Json)) (s : Registry × Host) (hSignal : s.1.signal = signal)
    (hListeners : s.1.listeners = listeners) (hEnd : endAll limit sets s = true) :
    Stretch Q tag s.1 (setAll limit sets s).1 := by
  induction sets generalizing s with
  | nil => exact .refl hQ tag s.1
  | cons set rest ih =>
    obtain ⟨id, value⟩ := set
    rw [endAll, Bool.and_eq_true] at hEnd
    obtain ⟨hFirst, hRest⟩ := hEnd
    have hOne := hSet id value s.1 s.2 hSignal hListeners hFirst
    exact hOne.trans hQ
      (ih _ (hOne.signal.trans hSignal) (hOne.listeners.trans hListeners) hRest)

/-! ## Every change is heard once -/

theorem everyAnswer_of_endsWithin {limit : Nat}
    (hEnds : endsWithin (limit + 1) id value r host = true)
    (hSome : announcement? id value r host = some (b, told, later')) :
    everyAnswer (setWithin limit) (endsWithin limit) id b told.listeners told later' = true := by
  rw [endsWithin, hSome] at hEnds
  exact hEnds

theorem keeps_perm (hSignal : signal.Contains) (hTag : .recorder tag ∉ before ++ after)
    (limit : Nat) : Keeps List.Perm tag signal (before ++ .recorder tag :: after)
      (endsWithin limit) (setWithin limit) := by
  induction limit with
  | zero =>
    intro id value r host _ _ hEnds
    cases hEnds
  | succ limit ih =>
    intro id value r host hSame hListeners hEnds
    refine ih.setWith comparison_perm (.inr hSignal) hTag hSame hListeners ?_ ?_
    · intro b told later hSome
      exact everyAnswer_of_endsWithin hEnds hSome
    · intro b told later _ _ hAhead
      exact (List.perm_append_singleton _ _).trans (hAhead.compare.cons _)

/-! ## Changes are heard in order -/

theorem keeps_eq (hSignal : signal.Contains) (hTag : .recorder tag ∉ before ++ after) {limit : Nat}
    (hUnanswered : ∀ r host id value, r.signal = signal →
      r.listeners = before ++ .recorder tag :: after →
      endsWithin limit id value r host = true → Unanswered before limit id value r host)
    {depth : Nat} (hDepth : depth ≤ limit) :
    Keeps Eq tag signal (before ++ .recorder tag :: after) (endsWithin depth)
      (setWithin depth) := by
  -- over the depth; what the listeners ahead do is known where announcements may nest to the limit
  induction depth with
  | zero =>
    intro id value r host _ _ hEnds
    cases hEnds
  | succ depth ih =>
    intro id value r host hStill hListeners hEnds
    refine (ih (Nat.le_of_succ_le hDepth)).setWith comparison_eq (.inr hSignal) hTag hStill
      hListeners ?_ ?_
    · intro b told later hSome
      exact everyAnswer_of_endsWithin hEnds hSome
    · intro b told later hSome hAnswers hAhead
      obtain ⟨_, hWider⟩ := sameWhere_of_le hDepth id value r host hEnds
      obtain ⟨deeper, rfl⟩ : ∃ deeper, limit = deeper + 1 :=
        ⟨limit - 1, (Nat.succ_pred_eq_of_pos (Nat.zero_lt_of_lt hDepth)).symm⟩
      have hNone := hUnanswered r host id value hStill hListeners hWider b told later hSome
      rw [(sameWhere_of_le (Nat.le_of_succ_le_succ hDepth)).tell id b before told later hAnswers]
        at hNone
      rw [hAhead.compare, hNone]
      rfl

theorem keeps_of_inStoreOrder (hSignal : signal.Contains)
    (hTag : .recorder tag ∉ before ++ after) {limit : Nat}
    (hOrder : ∀ r host sets, r.signal = signal → r.listeners = before ++ .recorder tag :: after →
      endAll limit sets (r, host) = true → InStoreOrder tag r (setAll limit sets (r, host)).1)
    {depth : Nat} (hDepth : depth ≤ limit) :
    Keeps Eq tag signal (before ++ .recorder tag :: after) (endsWithin depth)
      (setWithin depth) := by
  intro id value r host hStill hListeners hEnds
  obtain ⟨hSame, hWider⟩ := sameWhere_of_le hDepth id value r host hEnds
  have hIn := hOrder r host [(id, value)] hStill hListeners (by rw [endAll, endAll, hWider]; rfl)
  refine (keeps_perm hSignal hTag depth id value r host hStill hListeners hEnds).of_compare ?_
  rw [← hSame]
  exact hIn

/-- Where a recorder hears of a change at once and of all nested ones in order, the listeners ahead
have made none. -/
theorem unanswered_of_keeps (hSignal : signal.Contains) (hTag : .recorder tag ∉ before ++ after)
    {limit : Nat}
    (hKeeps : ∀ depth ≤ limit, Keeps Eq tag signal (before ++ .recorder tag :: after)
      (endsWithin depth) (setWithin depth))
    (hStill : r.signal = signal) (hListeners : r.listeners = before ++ .recorder tag :: after)
    (hEnds : endsWithin limit id value r host = true) :
    Unanswered before limit id value r host := by
  obtain ⟨hBefore, hAfter⟩ : .recorder tag ∉ before ∧ .recorder tag ∉ after := by
    simpa [not_or] using hTag
  cases limit with
  | zero => trivial
  | succ limit =>
    intro b told later hSome
    have hSet := hKeeps limit (Nat.le_succ limit)
    have hAnswers := everyAnswer_of_endsWithin hEnds hSome
    have hWhole :=
      (hKeeps (limit + 1) (Nat.le_refl _) id value r host hStill hListeners hEnds).compare
    obtain ⟨s, queue, hSetting, hMoves, hTold⟩ := told_of_announcement? hSome
    have hThere : told.listeners = before ++ .recorder tag :: after := by
      rw [hTold]
      exact hListeners
    have hCarrier : told.signal = signal := (signal_of_announcement? hSome).trans hStill
    change heardSince tag r (setWith (setWithin limit) id value r host).2.1 =
      changesSince r (setWith (setWithin limit) id value r host).2.1 at hWhole
    rw [setWith_of_announcement (hStill ▸ hSignal) hSome, hThere, tell_append] at hWhole
    rw [hThere, everyAnswer_append, everyAnswer, Bool.and_eq_true, Bool.and_eq_true] at hAnswers
    obtain ⟨hAhead, _, hBehind⟩ := hAnswers
    have hFirst := hSet.tell comparison_eq id b before hBefore told later hCarrier hThere hAhead
    have hPlaced : told.position? id = some (.bool b) := by
      rw [hTold]
      change (r.assign id b).position? id = _
      rw [position?_assign (Option.isSome_iff_exists.mpr ⟨s, hSetting⟩), also, if_pos rfl]
    generalize tell (setWithin limit) id b before told later = ahead at *
    obtain ⟨early, between⟩ := ahead
    -- what the recorder has heard by the time that it hears of this change, and what has changed
    have hChange : Stretch (fun heard made => heard = heardSince tag told early ++ [⟨id, .bool b⟩] ∧
        made = ⟨id, .bool b⟩ :: changesSince told early) tag r
        { early with heard := early.heard ++ [⟨tag, id, b⟩] } :=
      stretch_change hSetting hMoves hTold hFirst ⟨rfl, rfl⟩
    have hLast := hSet.tell comparison_eq id b after hAfter _ _ (hChange.signal.trans hStill)
      (hChange.listeners.trans hListeners) hBehind
    obtain ⟨hHeard, hMade⟩ := hChange.since_append hLast
    obtain ⟨hEarly, hOwn⟩ := hChange.compare
    have hSame := hHeard.symm.trans (hWhole.trans hMade)
    rw [hEarly, hOwn, hLast.compare, hFirst.compare] at hSame
    have hShift : changesSince told early ++ [⟨id, .bool b⟩] =
        ⟨id, .bool b⟩ :: changesSince told early := List.append_cancel_right hSame
    cases hChanges : changesSince told early with
    | nil => rfl
    | cons change rest =>
      rw [hChanges] at hShift
      obtain ⟨rfl, _⟩ := List.cons.inj hShift
      refine absurd ?_ (head?_changes_ne hPlaced (early.assigned.drop told.assigned.length))
      change (changesSince told early).head? = _
      rw [hChanges]
      rfl

/-- Sets that come to an end are heard of in the order of the store exactly where no listener ahead
of the recorder answers a change with another. In any case each change is heard of once, and where
the order is kept, the last change of a switch that the recorder hears of is its position. -/
theorem heard_in_store_order_iff (signal : Signal) (hSignal : signal.Contains) (limit : Nat)
    (tag : Text) (before after : List Listener) (hTag : .recorder tag ∉ before ++ after) :
    ((∀ r host sets, r.signal = signal → r.listeners = before ++ .recorder tag :: after →
        endAll limit sets (r, host) = true → InStoreOrder tag r (setAll limit sets (r, host)).1) ↔
      ∀ r host id value, r.signal = signal → r.listeners = before ++ .recorder tag :: after →
        endsWithin limit id value r host = true → Unanswered before limit id value r host) ∧
    ∀ r host sets, r.signal = signal → r.listeners = before ++ .recorder tag :: after →
      endAll limit sets (r, host) = true →
        (heardSince tag r (setAll limit sets (r, host)).1).Perm
          (changesSince r (setAll limit sets (r, host)).1) ∧
        (InStoreOrder tag r (setAll limit sets (r, host)).1 → ∀ id request,
          lastSave? id (heardSince tag r (setAll limit sets (r, host)).1) = some request →
            (setAll limit sets (r, host)).1.get id = .ok request.value) := by
  refine ⟨⟨?_, ?_⟩, ?_⟩
  · intro hOrder r host id value hStill hListeners hEnds
    exact unanswered_of_keeps hSignal hTag (fun _ => keeps_of_inStoreOrder hSignal hTag hOrder)
      hStill hListeners hEnds
  · intro hUnanswered r host sets hStill hListeners hEnd
    have hKeeps := keeps_eq hSignal hTag hUnanswered (Nat.le_refl limit)
    exact (hKeeps.setAll comparison_eq sets (r, host) hStill hListeners hEnd).compare
  · intro r host sets hStill hListeners hEnd
    have hStretch := (keeps_perm hSignal hTag limit).setAll comparison_perm sets (r, host) hStill
      hListeners hEnd
    refine ⟨hStretch.compare, ?_⟩
    intro hOrder id request hLast
    rw [hOrder] at hLast
    exact hStretch.get_of_lastSave? hLast

def heardBetween (before after : List Listener) : Registry where
  settings := Descriptor.table.map fun d => ⟨d, d.default⟩
  listeners := before ++ .recorder "seen" :: after

def switchBack : Listener :=
  .rule Descriptor.loggingEnabled true Descriptor.loggingEnabled false

/-- Behind a recorder a listener may answer as it likes. -/
theorem heard_in_store_order_ahead_of_rule :
    Signal.Contains {} ∧ .recorder "seen" ∉ [.recorder "first"] ++ [switchBack, .recorder "last"] ∧
      let r := heardBetween [.recorder "first"] [switchBack, .recorder "last"]
      let sets := [(Descriptor.loggingEnabled, Json.bool true)]
      InStoreOrder "seen" r (setAll cascadeLimit sets (r, Host.sample [])).1 ∧
        heardSince "seen" r (setAll cascadeLimit sets (r, Host.sample [])).1 =
          [⟨Descriptor.loggingEnabled, true⟩, ⟨Descriptor.loggingEnabled, false⟩] := by
  have hTag : .recorder "seen" ∉ [.recorder "first"] ++ [switchBack, .recorder "last"] := by
    have hOther : Text.ofString "seen" ≠ "first" ∧ Text.ofString "seen" ≠ "last" := by decide
    simpa [switchBack] using hOther
  have hSignal : Signal.Contains {} := fun _ => rfl
  refine ⟨hSignal, hTag, ?_, by decide +kernel⟩
  refine (heard_in_store_order_iff {} hSignal cascadeLimit "seen" _ _ hTag).1.mpr ?_ _ _ _ rfl rfl
    (by decide +kernel)
  intro r host id value _ _ _ b told later _
  -- the recorder ahead only writes the change down
  change changes told.position? (told.assigned.drop told.assigned.length) = []
  rw [List.drop_length]
  rfl

/-- A recorder behind a listener that answers a change hears of the answer first. In the end it has
heard last that logging is on, where it is off. -/
theorem heard_out_of_store_order_behind_rule :
    let r := heardBetween [switchBack] []
    let sets := [(Descriptor.loggingEnabled, Json.bool true)]
    let later := (setAll cascadeLimit sets (r, Host.sample [])).1
    endAll cascadeLimit sets (r, Host.sample []) = true ∧ ¬ InStoreOrder "seen" r later ∧
      lastSave? Descriptor.loggingEnabled (heardSince "seen" r later) =
        some ⟨Descriptor.loggingEnabled, true⟩ ∧
      later.get Descriptor.loggingEnabled = .ok false := by
  refine ⟨?_, ?_, ?_, ?_⟩
  · decide +kernel
  · decide +kernel
  · decide +kernel
  · rfl

end Switchboard.Registry
