import Switchboard.Proofs.Registry

/-!
# Cascades that end

A cascade ends of itself when the sets that listeners make in answer to a change do not nest without
end. It has then the same outcome however deep announcements may nest, as long as they may nest deep
enough for it. All this is about signals that let no failure of a listener come back, so that every
listener is told.
-/

namespace Switchboard

/-- What a listener does about a change, besides recording it. -/
def Listener.reaction (id : Text) (value : Bool) (r : Registry) : Listener → Reaction
  | recorder _ => .finish
  | rule whenId whenValue thenId thenValue =>
    if whenId = id ∧ whenValue.equalsBool value then .set thenId thenValue fun _ _ _ => .finish
    else .finish
  | program react => react id value r.settings r.heard

def Listener.entry (id : Text) (value : Bool) : Listener → List Heard
  | recorder tag => [⟨tag, id, value⟩]
  | _ => []

namespace Registry

/-- What comes of telling each of some listeners in turn of a change. -/
def tell (set : Setter) (id : Text) (value : Bool) :
    List Listener → Registry → Host → Registry × Host
  | [], r, host => (r, host)
  | listener :: rest, r, host =>
    let (_, r, host) := answer set id value listener r host
    tell set id value rest r host

/-- The announcement that a set begins with, if it changes anything: the new position, and where the
registry and the host are by then. -/
def announcement? (id : Text) (value : Json) (r : Registry) (host : Host) :
    Option (Bool × Registry × Host) :=
  match r.setting? id, value with
  | some s, .bool b =>
    let (told, later) := (r.assign id b).submit id b host
    if s.value.equalsBool b then none else some (b, told, noteChange s.descriptor b later)
  | _, _ => none

abbrev Test := Text → Json → Registry → Host → Bool

/-- Whether every set that a reaction makes passes a test. -/
def everySet (set : Setter) (test : Test) : Reaction → Registry → Host → Bool
  | .finish, _, _ => true
  | .fail _, _, _ => true
  | .set id value next, r, host =>
    test id value r host &&
      let (result, later, host) := set id value r host
      everySet set test (next result later.settings later.heard) later host

/-- Whether every set that listeners make passes a test, when they are told of a change in turn. -/
def everyAnswer (set : Setter) (test : Test) (id : Text) (value : Bool) :
    List Listener → Registry → Host → Bool
  | [], _, _ => true
  | listener :: rest, r, host =>
    everySet set test (listener.reaction id value r) r host &&
      everyAnswer set test id value rest (answer set id value listener r host).2.1
        (answer set id value listener r host).2.2

/-- Whether a set comes to an end with announcements nested no deeper than a given depth. -/
def endsWithin : Nat → Test
  | 0, _, _, _, _ => false
  | depth + 1, id, value, r, host =>
    match announcement? id value r host with
    | none => true
    | some (b, told, later) =>
      everyAnswer (setWithin depth) (endsWithin depth) id b told.listeners told later

variable {id : Text} {value : Json} {b : Bool} {r told : Registry} {host later : Host}
  {first second : Setter} {test wider : Test}

/-! ## Announcements, one listener after the other -/

theorem announce_eq_tell {signal : Signal} (h : signal.Contains) (set : Setter) (id : Text)
    (b : Bool) (listeners : List Listener) (r : Registry) (host : Host) :
    announce signal set id b listeners r host = (.ok (), tell set id b listeners r host) := by
  induction listeners generalizing r host with
  | nil => rfl
  | cons listener rest ih =>
    rw [announce, tell]
    obtain ⟨result, after, later⟩ := answer set id b listener r host
    cases result with
    | ok _ => exact ih after later
    | error e =>
      dsimp only
      rw [if_neg (by simp [h e])]
      exact ih after later

theorem answer_state (set : Setter) (id : Text) (b : Bool) (listener : Listener) (r : Registry)
    (host : Host) :
    (answer set id b listener r host).2 =
      ({ (perform set (listener.reaction id b r) r host).2.1 with
          heard := (perform set (listener.reaction id b r) r host).2.1.heard ++
            listener.entry id b },
        (perform set (listener.reaction id b r) r host).2.2) := by
  cases listener with
  | recorder tag => rfl
  | program react =>
    simp only [Listener.entry, List.append_nil]
    rfl
  | rule whenId whenValue thenId thenValue =>
    simp only [Listener.entry, List.append_nil, answer, Listener.reaction]
    split
    · rfl
    · rfl

theorem tell_cons (set : Setter) (id : Text) (b : Bool) (listener : Listener)
    (rest : List Listener) (r : Registry) (host : Host) :
    tell set id b (listener :: rest) r host =
      tell set id b rest
        { (perform set (listener.reaction id b r) r host).2.1 with
          heard := (perform set (listener.reaction id b r) r host).2.1.heard ++
            listener.entry id b }
        (perform set (listener.reaction id b r) r host).2.2 := by
  change tell set id b rest (answer set id b listener r host).2.1
    (answer set id b listener r host).2.2 = _
  rw [answer_state]

theorem tell_append (set : Setter) (id : Text) (b : Bool) (ahead behind : List Listener)
    (r : Registry) (host : Host) :
    tell set id b (ahead ++ behind) r host =
      tell set id b behind (tell set id b ahead r host).1 (tell set id b ahead r host).2 := by
  induction ahead generalizing r host with
  | nil => rfl
  | cons listener rest ih => rw [List.cons_append, tell_cons, ih, ← tell_cons]

theorem everyAnswer_append (set : Setter) (test : Test) (id : Text) (b : Bool)
    (ahead behind : List Listener) (r : Registry) (host : Host) :
    everyAnswer set test id b (ahead ++ behind) r host =
      (everyAnswer set test id b ahead r host &&
        everyAnswer set test id b behind (tell set id b ahead r host).1
          (tell set id b ahead r host).2) := by
  induction ahead generalizing r host with
  | nil => rfl
  | cons listener rest ih =>
    rw [List.cons_append, everyAnswer, everyAnswer, ih, Bool.and_assoc]
    rfl

/-! ## What a set does besides nested ones -/

theorem announcement?_eq_some (h : announcement? id value r host = some (b, told, later)) :
    ∃ s, r.setting? id = some s ∧ value = .bool b ∧ s.value.equalsBool b = false ∧
      told = ((r.assign id b).submit id b host).1 ∧
      later = noteChange s.descriptor b ((r.assign id b).submit id b host).2 := by
  unfold announcement? at h
  split at h
  · rename_i s c hSetting
    dsimp only at h
    split at h
    · cases h
    · rename_i hChanged
      obtain ⟨rfl, rfl, rfl⟩ : c = b ∧ _ = told ∧ _ = later := by simpa using h
      exact ⟨s, hSetting, rfl, Bool.eq_false_of_not_eq_true hChanged, rfl, rfl⟩
  · cases h

/-- A set is rejected, or assigns without a change, or makes a change and announces it. -/
theorem setWith_cases (id : Text) (value : Json) (r : Registry) (host : Host) :
    (announcement? id value r host = none ∧ ∃ e, ∀ nested : Setter,
      setWith nested id value r host = (.error e, r, host)) ∨
    (announcement? id value r host = none ∧ ∃ s b, r.setting? id = some s ∧ value = .bool b ∧
      s.value.equalsBool b = true ∧ ∀ nested : Setter,
        setWith nested id value r host = (.ok (), (r.assign id b).submit id b host)) ∨
    ∃ b told later, announcement? id value r host = some (b, told, later) ∧ ∀ nested : Setter,
      setWith nested id value r host =
        announce told.signal nested id b told.listeners told later := by
  unfold announcement? setWith
  cases hSetting : r.setting? id with
  | none => exact .inl ⟨rfl, _, fun _ => rfl⟩
  | some s =>
    cases value with
    | bool b =>
      dsimp only
      split
      · rename_i hSame
        exact .inr (.inl ⟨rfl, s, b, rfl, rfl, hSame, fun _ => rfl⟩)
      · exact .inr (.inr ⟨b, _, _, rfl, fun _ => rfl⟩)
    | _ => exact .inl ⟨rfl, _, fun _ => rfl⟩

theorem signal_of_announcement? (h : announcement? id value r host = some (b, told, later)) :
    told.signal = r.signal := by
  obtain ⟨_, _, _, _, rfl, _⟩ := announcement?_eq_some h
  rw [submit]
  split
  · rfl
  · rfl

theorem setWith_of_announcement (hSignal : r.signal.Contains)
    (h : announcement? id value r host = some (b, told, later)) (nested : Setter) :
    setWith nested id value r host = (.ok (), tell nested id b told.listeners told later) := by
  rcases setWith_cases id value r host with
    ⟨hNone, _⟩ | ⟨hNone, _⟩ | ⟨_, _, _, hSome, hSet⟩
  · rw [h] at hNone
    cases hNone
  · rw [h] at hNone
    cases hNone
  · rw [h] at hSome
    cases hSome
    rw [hSet]
    exact announce_eq_tell (signal_of_announcement? h ▸ hSignal) _ _ _ _ _ _

/-! ## Deeper nesting -/

/-- Two ways to set a switch come to the same wherever a test is passed. -/
def SameWhere (test wider : Test) (first second : Setter) : Prop :=
  ∀ id value r host, test id value r host = true →
    second id value r host = first id value r host ∧ wider id value r host = true

theorem SameWhere.perform (h : SameWhere test wider first second) (reaction : Reaction)
    (r : Registry) (host : Host) (hEvery : everySet first test reaction r host = true) :
    perform second reaction r host = perform first reaction r host ∧
      everySet second wider reaction r host = true := by
  induction reaction generalizing r host with
  | finish => exact ⟨rfl, rfl⟩
  | fail e => exact ⟨rfl, rfl⟩
  | set id value next ih =>
    rw [everySet, Bool.and_eq_true] at hEvery
    obtain ⟨hTest, hRest⟩ := hEvery
    obtain ⟨hSame, hWider⟩ := h id value r host hTest
    rw [Registry.perform, Registry.perform, everySet, hSame, hWider, Bool.true_and]
    exact ih _ _ _ _ _ hRest

theorem SameWhere.answer (h : SameWhere test wider first second) (id : Text) (b : Bool)
    (listener : Listener) (r : Registry) (host : Host)
    (hEvery : everySet first test (listener.reaction id b r) r host = true) :
    answer second id b listener r host = answer first id b listener r host ∧
      everySet second wider (listener.reaction id b r) r host = true := by
  obtain ⟨hSame, hWider⟩ := h.perform _ _ _ hEvery
  refine ⟨?_, hWider⟩
  cases listener with
  | recorder tag => rfl
  | program react => exact hSame
  | rule whenId whenValue thenId thenValue =>
    rw [Listener.reaction] at hEvery
    rw [Registry.answer, Registry.answer]
    split at hEvery
    · rename_i hMatches
      rw [everySet, Bool.and_eq_true] at hEvery
      rw [if_pos hMatches, if_pos hMatches, (h _ _ _ _ hEvery.1).1]
    · rename_i hOther
      rw [if_neg hOther, if_neg hOther]

theorem SameWhere.announce (h : SameWhere test wider first second) (signal : Signal) (id : Text)
    (b : Bool) (listeners : List Listener) (r : Registry) (host : Host)
    (hEvery : everyAnswer first test id b listeners r host = true) :
    announce signal second id b listeners r host = announce signal first id b listeners r host ∧
      everyAnswer second wider id b listeners r host = true := by
  induction listeners generalizing r host with
  | nil => exact ⟨rfl, rfl⟩
  | cons listener rest ih =>
    rw [everyAnswer, Bool.and_eq_true] at hEvery
    obtain ⟨hReaction, hRest⟩ := hEvery
    obtain ⟨hSame, hWider⟩ := h.answer id b listener r host hReaction
    obtain ⟨hLater, hAnswers⟩ := ih _ _ hRest
    rw [everyAnswer, hWider, hSame, Bool.true_and]
    refine ⟨?_, hAnswers⟩
    rw [Registry.announce, Registry.announce, hSame]
    generalize Registry.answer first id b listener r host = answered at hLater ⊢
    obtain ⟨result, after, later⟩ := answered
    cases result with
    | ok _ => exact hLater
    | error e =>
      dsimp only
      split
      · rfl
      · exact hLater

theorem SameWhere.tell (h : SameWhere test wider first second) (id : Text) (b : Bool)
    (listeners : List Listener) (r : Registry) (host : Host)
    (hEvery : everyAnswer first test id b listeners r host = true) :
    tell second id b listeners r host = tell first id b listeners r host := by
  have hNone : Signal.Contains {} := fun _ => rfl
  have hSame := (h.announce {} id b listeners r host hEvery).1
  rw [announce_eq_tell hNone, announce_eq_tell hNone] at hSame
  exact congrArg Prod.snd hSame

theorem sameWhere_succ (depth : Nat) :
    SameWhere (endsWithin depth) (endsWithin (depth + 1)) (setWithin depth)
      (setWithin (depth + 1)) := by
  -- over the depth, since the nested sets of a set that ends have one less
  induction depth with
  | zero =>
    intro id value r host hEnds
    cases hEnds
  | succ depth ih =>
    intro id value r host hEnds
    change setWith (setWithin (depth + 1)) id value r host =
      setWith (setWithin depth) id value r host ∧ _
    rw [endsWithin] at hEnds ⊢
    rcases setWith_cases id value r host with
      ⟨hNone, e, hSet⟩ | ⟨hNone, s, b, _, _, _, hSet⟩ | ⟨b, told, later, hSome, hSet⟩
    · rw [hSet, hSet, hNone]
      exact ⟨rfl, rfl⟩
    · rw [hSet, hSet, hNone]
      exact ⟨rfl, rfl⟩
    · rw [hSome] at hEnds ⊢
      obtain ⟨hSame, hWider⟩ := ih.announce told.signal id b told.listeners told later hEnds
      rw [hSet, hSet, hSame]
      exact ⟨rfl, hWider⟩

/-- A set that ends comes to the same however much deeper announcements may nest. -/
theorem sameWhere_of_le {depth limit : Nat} (h : depth ≤ limit) :
    SameWhere (endsWithin depth) (endsWithin limit) (setWithin depth) (setWithin limit) := by
  induction limit, h using Nat.le_induction with
  | base => exact fun _ _ _ _ hEnds => ⟨rfl, hEnds⟩
  | succ limit hLe ih =>
    intro id value r host hEnds
    obtain ⟨hSame, hWider⟩ := ih id value r host hEnds
    obtain ⟨hNext, hLast⟩ := sameWhere_succ limit id value r host hWider
    exact ⟨hNext.trans hSame, hLast⟩

end Registry

end Switchboard
