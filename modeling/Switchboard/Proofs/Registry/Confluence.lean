import Mathlib.Data.Finset.Card
import Switchboard.Proofs.Registry.Tracing

/-!
# Cascades of rules

A rule answers one change with one set. Where a set and the rules never name one switch with both
positions, each switch moves at most once, to the position that is named for it. So the cascade
ends, and the assignments made in it are the least ones that hold the first set and the answers to
every change among them. The order in which the rules are connected does not show in them.
-/

namespace Switchboard

abbrev Target := Text × Bool

def Target.request (t : Target) : SaveRequest :=
  ⟨t.1, .bool t.2⟩

namespace Listener

/-- Writes changes down, or answers one of them by setting a switch to a position. -/
def IsPlain : Listener → Prop
  | recorder _ => True
  | rule _ _ _ (.bool _) => True
  | _ => False

/-- The set that a rule makes in answer to a change. -/
def answer? (t : Target) : Listener → Option Target
  | rule whenId whenValue thenId (.bool b) =>
    if whenId = t.1 ∧ whenValue.equalsBool t.2 then some (thenId, b) else none
  | _ => none

def target? : Listener → Option Target
  | rule _ _ thenId (.bool b) => some (thenId, b)
  | _ => none

variable {listener : Listener} {t u : Target}

theorem target?_of_answer? (h : listener.answer? t = some u) : listener.target? = some u := by
  unfold answer? at h
  split at h
  · split at h
    · exact h
    · cases h
  · cases h

theorem reaction_of_answer? (h : listener.answer? t = some u) (r : Registry) :
    listener.reaction t.1 t.2 r = .set u.1 (.bool u.2) fun _ _ _ => .finish := by
  unfold answer? at h
  split at h
  · split at h
    · rename_i hHears
      cases h
      exact if_pos hHears
    · cases h
  · cases h

theorem reaction_of_no_answer (hPlain : listener.IsPlain) (h : listener.answer? t = none)
    (r : Registry) : listener.reaction t.1 t.2 r = .finish := by
  unfold IsPlain at hPlain
  split at hPlain
  · rfl
  · refine if_neg fun hHears => ?_
    rw [answer?, if_pos hHears] at h
    cases h
  · cases hPlain

end Listener

namespace Registry

open RecordFile (also)
open WriteQueue (wantedAfter)

/-- Whether a set would move its switch. -/
def moves (r : Registry) (t : Target) : Bool :=
  match r.position? t.1 with
  | some value => !value.equalsBool t.2
  | none => false

def targets (t : Target) (listeners : List Listener) : List Target :=
  t :: listeners.filterMap Listener.target?

/-- No switch is named with both positions. -/
def Consistent (named : List Target) : Prop :=
  ∀ t ∈ named, ∀ u ∈ named, t.1 = u.1 → t.2 = u.2

instance (named : List Target) : Decidable (Consistent named) :=
  inferInstanceAs (Decidable (∀ t ∈ named, ∀ u ∈ named, t.1 = u.1 → t.2 = u.2))

/-- The sets that a set leads to: it itself, and the answers to those that move their switch. -/
inductive Ensues (r : Registry) (t : Target) : Target → Prop
  | asked : Ensues r t t
  | answered {u v : Target} {listener : Listener} (h : Ensues r t u) (hMoves : r.moves u = true)
      (hListener : listener ∈ r.listeners) (hAnswer : listener.answer? u = some v) : Ensues r t v

/-- The switches that are not where they are named to be. -/
def unsettled (named : List Target) (r : Registry) : Finset Text :=
  r.ids.toFinset.filter fun id => ∃ t ∈ named, t.1 = id ∧ r.moves t = true

/-- Those of some assignments that are about one switch are one and the same. -/
def Agreeing (made : List SaveRequest) : Prop :=
  ∀ request ∈ made, ∀ other ∈ made, request.id = other.id → request = other

/-- Some of the sets that are named hold all answers to those of them that move their switch. -/
structure Covers (sets : Target → Prop) (named : List Target) (r : Registry) : Prop where
  signal : r.signal.Contains
  plain : ∀ listener ∈ r.listeners, listener.IsPlain
  consistent : Consistent named
  named : ∀ t, sets t → t ∈ named
  answers : ∀ t, sets t → r.moves t = true → ∀ listener ∈ r.listeners, ∀ u,
    listener.answer? t = some u → sets u

/-- What a part of a cascade makes are some of the sets that are expected, and with a change among
them all answers to it. -/
structure Unfolds (sets : Target → Prop) (made : List SaveRequest) (r later : Registry) : Prop where
  trace : Trace made r later
  expected : ∀ request ∈ made, ∃ t, sets t ∧ request = t.request
  answered : ∀ t, t.request ∈ changes r.position? made → ∀ listener ∈ r.listeners, ∀ u,
    listener.answer? t = some u → u.1 ∈ r.ids → u.request ∈ made

variable {id : Text} {t u : Target} {r later last told : Registry} {host : Host}
  {sets : Target → Prop} {named : List Target} {made more : List SaveRequest}
  {position : Text → Option Json}

/-! ## Agreeing assignments -/

theorem mem_of_lastSave? {request : SaveRequest} (h : lastSave? id made = some request) :
    request ∈ made ∧ request.id = id :=
  ⟨List.mem_reverse.mp (List.mem_of_find?_eq_some h), by simpa using List.find?_some h⟩

theorem wantedAfter_eq (made : List SaveRequest) (position : Text → Option Json) (id : Text) :
    wantedAfter made position id =
      ((lastSave? id made).map SaveRequest.value).or (position id) := by
  induction made using List.reverseRecOn with
  | nil => rfl
  | append_singleton before request ih =>
    rw [wantedAfter, List.foldl_concat, lastSave?_append]
    change also request.id request.value (wantedAfter before position) id = _
    rw [also, ih]
    by_cases hSame : request.id = id
    · rw [if_pos hSame, if_pos hSame.symm]
      rfl
    · rw [if_neg hSame, if_neg (Ne.symm hSame)]

theorem lastSave?_congr (hAgreeing : Agreeing made) (h : ∀ request, request ∈ made ↔ request ∈ more)
    (id : Text) : lastSave? id made = lastSave? id more := by
  cases hLast : lastSave? id made with
  | none =>
    refine (List.find?_eq_none.mpr fun request hMem => ?_).symm
    exact List.find?_eq_none.mp hLast request
      (List.mem_reverse.mpr ((h request).mpr (List.mem_reverse.mp hMem)))
  | some request =>
    obtain ⟨hMem, rfl⟩ := mem_of_lastSave? hLast
    obtain ⟨other, hOther⟩ := exists_lastSave? ((h request).mp hMem)
    obtain ⟨hAlso, hId⟩ := mem_of_lastSave? hOther
    rw [hOther, hAgreeing request hMem other ((h other).mpr hAlso) hId.symm]

theorem Agreeing.tail {request : SaveRequest} (h : Agreeing (request :: made)) : Agreeing made :=
  fun first hFirst second hSecond => h first (List.mem_cons_of_mem _ hFirst) second
    (List.mem_cons_of_mem _ hSecond)

/-- What would move its switch once an assignment is made that it agrees with. -/
theorem stays_also_iff {first request : SaveRequest}
    (hAgree : request.id = first.id → request = first) (hBool : first.value.isBool = true) :
    stays (also first.id first.value position) request = false ↔
      request ≠ first ∧ stays position request = false := by
  by_cases hSame : request.id = first.id
  · obtain rfl := hAgree hSame
    obtain ⟨b, hValue⟩ := (Json.isBool_iff _).mp hBool
    simp [stays, also, hValue]
  · have hOther : request ≠ first := fun hEq => hSame (hEq ▸ rfl)
    rw [stays, also, if_neg hSame, stays]
    exact (and_iff_right hOther).symm

theorem mem_changes_iff (hAgreeing : Agreeing made)
    (hBool : ∀ request ∈ made, request.value.isBool = true) (request : SaveRequest) :
    request ∈ changes position made ↔ request ∈ made ∧ stays position request = false := by
  induction made generalizing position with
  | nil => simp [changes]
  | cons first rest ih =>
    obtain ⟨hFirst, hRest⟩ := List.forall_mem_cons.mp hBool
    have hLater : request ∈ changes (also first.id first.value position) rest ↔
        request ∈ rest ∧ request ≠ first ∧ stays position request = false := by
      rw [ih hAgreeing.tail hRest]
      refine and_congr_right fun hMem => stays_also_iff ?_ hFirst
      exact hAgreeing request (List.mem_cons_of_mem _ hMem) first List.mem_cons_self
    rw [changes]
    by_cases hStays : stays position first = true
    · rw [if_pos hStays, hLater, List.mem_cons]
      constructor
      · rintro ⟨hMem, _, hMoves⟩
        exact ⟨.inr hMem, hMoves⟩
      · rintro ⟨hMem, hMoves⟩
        have hOther : request ≠ first := by
          rintro rfl
          rw [hStays] at hMoves
          cases hMoves
        exact ⟨hMem.resolve_left hOther, hOther, hMoves⟩
    · rw [if_neg hStays, List.mem_cons, hLater, List.mem_cons]
      constructor
      · rintro (rfl | ⟨hMem, _, hMoves⟩)
        · exact ⟨.inl rfl, Bool.eq_false_of_not_eq_true hStays⟩
        · exact ⟨.inr hMem, hMoves⟩
      · rintro ⟨hMem, hMoves⟩
        by_cases hEq : request = first
        · exact .inl hEq
        · exact .inr ⟨hMem.resolve_left hEq, hEq, hMoves⟩

theorem nodup_changes (hAgreeing : Agreeing made)
    (hBool : ∀ request ∈ made, request.value.isBool = true) :
    ((changes position made).map SaveRequest.id).Nodup := by
  induction made generalizing position with
  | nil => exact List.nodup_nil
  | cons first rest ih =>
    obtain ⟨hFirst, hRest⟩ := List.forall_mem_cons.mp hBool
    have hLater := @ih (also first.id first.value position) hAgreeing.tail hRest
    rw [changes]
    split
    · exact hLater
    · refine List.nodup_cons.mpr ⟨?_, hLater⟩
      intro hMem
      obtain ⟨request, hChange, hSame⟩ := List.mem_map.mp hMem
      obtain ⟨hMade, hMoves⟩ := (mem_changes_iff hAgreeing.tail hRest request).mp hChange
      have hEq := hAgreeing request (List.mem_cons_of_mem _ hMade) first List.mem_cons_self hSame
      exact ((stays_also_iff (fun _ => hEq) hFirst).mp hMoves).1 hEq

theorem perm_changes (hAgreeing : Agreeing made)
    (hBool : ∀ request ∈ made, request.value.isBool = true)
    (hSame : ∀ request, request ∈ made ↔ request ∈ more) (position : Text → Option Json) :
    (changes position more).Perm (changes position made) := by
  have hAlso : Agreeing more := fun request hMem other hOther =>
    hAgreeing request ((hSame request).mpr hMem) other ((hSame other).mpr hOther)
  have hBools : ∀ request ∈ more, request.value.isBool = true :=
    fun request hMem => hBool request ((hSame request).mpr hMem)
  refine (List.perm_ext_iff_of_nodup (nodup_changes hAlso hBools).of_map
    (nodup_changes hAgreeing hBool).of_map).mpr fun change => ?_
  rw [mem_changes_iff hAlso hBools, mem_changes_iff hAgreeing hBool, hSame]

/-! ## What is left to move -/

theorem request_injective (h : t.request = u.request) : t = u := by
  obtain ⟨hId, hValue⟩ := SaveRequest.mk.inj h
  exact Prod.ext hId (Json.bool.inj hValue)

theorem mem_ids_of_moves (h : r.moves t = true) : t.1 ∈ r.ids := by
  unfold moves at h
  split at h
  · rename_i value hPosition
    obtain ⟨s, hSetting, _⟩ := Option.map_eq_some_iff.mp hPosition
    exact (r.mem_ids_iff t.1).mpr ⟨s, hSetting⟩
  · cases h

theorem moves_eq_not_stays (hKnown : t.1 ∈ r.ids) :
    r.moves t = !stays r.position? t.request := by
  obtain ⟨s, hSetting⟩ := (r.mem_ids_iff t.1).mp hKnown
  have hPosition : r.position? t.1 = some s.value := by rw [position?, hSetting]; rfl
  rw [moves, hPosition, stays, Target.request, hPosition]

section Progress

variable (hCovers : Covers sets named r) (hTrace : Trace made r later)
  (hExpected : ∀ request ∈ made, ∃ u, sets u ∧ request = u.request)

include hCovers hTrace hExpected

/-- What is yet to move after sets that agree with it are those that were to move and have not been
made. -/
theorem moves_trace_iff (hNamed : t ∈ named) :
    later.moves t = true ↔ r.moves t = true ∧ t.request ∉ made := by
  have hPosition : later.position? t.1 =
      ((lastSave? t.1 made).map SaveRequest.value).or (r.position? t.1) := by
    rw [hTrace.position, wantedAfter_eq]
  cases hLast : lastSave? t.1 made with
  | none =>
    have hSame : later.moves t = r.moves t := by
      rw [moves, hPosition, hLast]
      rfl
    have hNew : t.request ∉ made := by
      intro hMem
      obtain ⟨last, hSome⟩ := exists_lastSave? hMem
      rw [show t.request.id = t.1 from rfl, hLast] at hSome
      cases hSome
    rw [hSame]
    exact (and_iff_left hNew).symm
  | some request =>
    obtain ⟨hMem, hId⟩ := mem_of_lastSave? hLast
    obtain ⟨u, hSets, rfl⟩ := hExpected request hMem
    -- the switch is where a set has brought it that names it as this one does
    obtain rfl : u = t :=
      Prod.ext hId (hCovers.consistent u (hCovers.named u hSets) t hNamed hId)
    have hSettled : later.moves u = false := by
      rw [moves, hPosition, hLast]
      simp [Target.request]
    rw [hSettled]
    exact iff_of_false Bool.false_ne_true fun h => h.2 hMem

theorem Covers.trace : Covers sets named later where
  signal := hTrace.signal ▸ hCovers.signal
  plain := hTrace.listeners ▸ hCovers.plain
  consistent := hCovers.consistent
  named := hCovers.named
  answers t hSets hMoves := by
    rw [hTrace.listeners]
    exact hCovers.answers t hSets
      ((moves_trace_iff hCovers hTrace hExpected (hCovers.named t hSets)).mp hMoves).1

theorem unsettled_trace_subset : unsettled named later ⊆ unsettled named r := by
  intro id hMem
  obtain ⟨hKnown, t, hNamed, hId, hMoves⟩ := Finset.mem_filter.mp hMem
  refine Finset.mem_filter.mpr ⟨hTrace.ids ▸ hKnown, t, hNamed, hId, ?_⟩
  exact ((moves_trace_iff hCovers hTrace hExpected hNamed).mp hMoves).1

/-- A set that moves its switch leaves fewer switches unsettled. -/
theorem unsettled_trace_ssubset (hSets : sets t) (hMoves : r.moves t = true)
    (hMade : t.request ∈ made) : unsettled named later ⊂ unsettled named r := by
  have hNamed := hCovers.named t hSets
  refine (Finset.ssubset_iff_of_subset (unsettled_trace_subset hCovers hTrace hExpected)).mpr
    ⟨t.1, ?_, ?_⟩
  · exact Finset.mem_filter.mpr
      ⟨List.mem_toFinset.mpr (mem_ids_of_moves hMoves), t, hNamed, rfl, hMoves⟩
  · intro hMem
    obtain ⟨_, u, hAlso, hSame, hLeft⟩ := Finset.mem_filter.mp hMem
    obtain rfl : u = t := Prod.ext hSame (hCovers.consistent u hAlso t hNamed hSame)
    exact ((moves_trace_iff hCovers hTrace hExpected hNamed).mp hLeft).2 hMade

end Progress

/-! ## Parts of a cascade -/

theorem Unfolds.refl (sets : Target → Prop) (r : Registry) : Unfolds sets [] r r where
  trace := .refl r
  expected := by simp
  answered := by simp [changes]

theorem Unfolds.trans (h : Unfolds sets made r later) (hNext : Unfolds sets more later last) :
    Unfolds sets (made ++ more) r last where
  trace := h.trace.trans hNext.trace
  expected := List.forall_mem_append.mpr ⟨h.expected, hNext.expected⟩
  answered t hChange listener hListener u hAnswer hKnown := by
    rw [changes_append, ← h.trace.position, List.mem_append] at hChange
    refine List.mem_append.mpr (hChange.imp ?_ ?_)
    · intro hFirst
      exact h.answered t hFirst listener hListener u hAnswer hKnown
    · intro hThen
      exact hNext.answered t hThen listener (h.trace.listeners.symm ▸ hListener) u hAnswer
        (h.trace.ids.symm ▸ hKnown)

theorem Unfolds.hear (h : Unfolds sets made r later) (heard : List Heard) :
    Unfolds sets made r { later with heard } :=
  ⟨h.trace.hear heard, h.expected, h.answered⟩

theorem Unfolds.cons (hSets : sets t) (hFirst : Trace [t.request] r later)
    (h : Unfolds sets made later last)
    (hAnswers : ∀ listener ∈ r.listeners, ∀ u, listener.answer? t = some u → u.1 ∈ r.ids →
      u.request ∈ made) : Unfolds sets (t.request :: made) r last where
  trace := hFirst.trans h.trace
  expected := List.forall_mem_cons.mpr ⟨⟨t, hSets, rfl⟩, h.expected⟩
  answered u hChange listener hListener v hAnswer hKnown := by
    rw [← List.singleton_append (l := made), changes_append, ← hFirst.position,
      List.mem_append] at hChange
    refine List.mem_cons_of_mem _ ?_
    rcases hChange with hOwn | hThen
    · obtain rfl : u = t :=
        request_injective (List.mem_singleton.mp (changes_subset _ _ hOwn))
      exact hAnswers listener hListener v hAnswer hKnown
    · exact h.answered u hThen listener (hFirst.listeners.symm ▸ hListener) v hAnswer
        (hFirst.ids.symm ▸ hKnown)

/-- Where fewer than a bound are unsettled, sets that are expected pass a test and unfold. -/
def Settles (sets : Target → Prop) (named : List Target) (bound : Nat) (test : Test)
    (set : Setter) : Prop :=
  ∀ t r host, sets t → Covers sets named r → (unsettled named r).card < bound →
    test t.1 (.bool t.2) r host = true ∧
      ∃ made, Unfolds sets made r (set t.1 (.bool t.2) r host).2.1 ∧
        (t.1 ∈ r.ids → t.request ∈ made)

variable {bound : Nat} {test : Test} {set : Setter}

theorem Settles.reaction (hSet : Settles sets named bound test set) {listener : Listener}
    (hListener : listener ∈ r.listeners) (hAnswer : ∀ u, listener.answer? t = some u → sets u)
    (hCovers : Covers sets named r) (hBound : (unsettled named r).card < bound) (host : Host) :
    everySet set test (listener.reaction t.1 t.2 r) r host = true ∧
      ∃ made, Unfolds sets made r (perform set (listener.reaction t.1 t.2 r) r host).2.1 ∧
        ∀ u, listener.answer? t = some u → u.1 ∈ r.ids → u.request ∈ made := by
  cases hOwn : listener.answer? t with
  | none =>
    rw [Listener.reaction_of_no_answer (hCovers.plain listener hListener) hOwn]
    exact ⟨rfl, [], .refl sets r, nofun⟩
  | some u =>
    obtain ⟨hTest, made, hUnfolds, hMade⟩ := hSet u r host (hAnswer u hOwn) hCovers hBound
    rw [Listener.reaction_of_answer? hOwn]
    refine ⟨?_, made, hUnfolds, ?_⟩
    · rw [everySet, hTest]
      rfl
    · rintro _ ⟨⟩
      exact hMade

theorem Settles.tell (hSet : Settles sets named bound test set) (part : List Listener)
    (hPart : part ⊆ r.listeners)
    (hAnswers : ∀ listener ∈ part, ∀ u, listener.answer? t = some u → sets u)
    (hCovers : Covers sets named r) (hBound : (unsettled named r).card < bound) (host : Host) :
    everyAnswer set test t.1 t.2 part r host = true ∧
      ∃ made, Unfolds sets made r (tell set t.1 t.2 part r host).1 ∧
        ∀ listener ∈ part, ∀ u, listener.answer? t = some u → u.1 ∈ r.ids → u.request ∈ made := by
  induction part generalizing r host with
  | nil => exact ⟨rfl, [], .refl sets r, nofun⟩
  | cons listener rest ih =>
    obtain ⟨hListener, hRest⟩ := List.cons_subset.mp hPart
    obtain ⟨hAnswer, hOthers⟩ := List.forall_mem_cons.mp hAnswers
    obtain ⟨hTest, made, hFirst, hMade⟩ := hSet.reaction hListener hAnswer hCovers hBound host
    have hHeard := hFirst.hear ((perform set (listener.reaction t.1 t.2 r) r host).2.1.heard ++
      listener.entry t.1 t.2)
    -- what the listener sets leaves no more switches unsettled than there were
    have hLess := Finset.card_le_card (unsettled_trace_subset hCovers hHeard.trace hHeard.expected)
    obtain ⟨hTests, more, hThen, hMore⟩ := ih (hHeard.trace.listeners.symm ▸ hRest) hOthers
      (hCovers.trace hHeard.trace hHeard.expected) (hLess.trans_lt hBound)
      (perform set (listener.reaction t.1 t.2 r) r host).2.2
    refine ⟨?_, made ++ more, ?_, ?_⟩
    · rw [everyAnswer, hTest, Bool.true_and, answer_state]
      exact hTests
    · rw [tell_cons]
      exact hHeard.trans hThen
    · rintro other hMem u hOwn hKnown
      rcases List.mem_cons.mp hMem with rfl | hLater
      · exact List.mem_append_left _ (hMade u hOwn hKnown)
      · exact List.mem_append_right _ (hMore other hLater u hOwn (hHeard.trace.ids.symm ▸ hKnown))

theorem unfolds_unchanged {s : Setting} (hSets : sets t) (hSetting : r.setting? t.1 = some s)
    (hSame : s.value.equalsBool t.2 = true) (host : Host) :
    Unfolds sets [t.request] r ((r.assign t.1 t.2).submit t.1 t.2 host).1 := by
  have hKnown := (r.mem_ids_iff t.1).mpr ⟨s, hSetting⟩
  have hStays : stays r.position? t.request = true := by
    simpa [stays, position?, Target.request, hSetting] using hSame
  refine ⟨trace_submit hKnown t.2 host, List.forall_mem_singleton.mpr ⟨t, hSets, rfl⟩, ?_⟩
  rw [changes, if_pos hStays]
  intro u hChange
  exact absurd hChange List.not_mem_nil

/-- A set that moves its switch, with one switch fewer to move for those that answer it. -/
theorem Settles.change (hSet : Settles sets named bound test set) (hSets : sets t)
    (hCovers : Covers sets named r) (hBound : (unsettled named r).card < bound + 1) {b : Bool}
    {outside : Host} (hSome : announcement? t.1 (.bool t.2) r host = some (b, told, outside)) :
    everyAnswer set test t.1 b told.listeners told outside = true ∧
      ∃ made, Unfolds sets (t.request :: made) r
        (Registry.tell set t.1 b told.listeners told outside).1 := by
  obtain ⟨s, hSetting, hValue, hMoved, hTold, _⟩ := announcement?_eq_some hSome
  cases hValue
  have hKnown := (r.mem_ids_iff t.1).mpr ⟨s, hSetting⟩
  have hMoves : r.moves t = true := by
    rw [moves, position?, hSetting]
    simpa using hMoved
  have hTrace : Trace [t.request] r told := hTold ▸ trace_submit hKnown t.2 host
  have hExpected : ∀ request ∈ [t.request], ∃ u, sets u ∧ request = u.request :=
    List.forall_mem_singleton.mpr ⟨t, hSets, rfl⟩
  have hFewer := Finset.card_lt_card (unsettled_trace_ssubset hCovers hTrace hExpected hSets
    hMoves (List.mem_singleton_self _))
  have hAnswers : ∀ listener ∈ told.listeners, ∀ u, listener.answer? t = some u → sets u :=
    hTrace.listeners ▸ hCovers.answers t hSets hMoves
  obtain ⟨hTests, made, hUnfolds, hMade⟩ := hSet.tell told.listeners (List.Subset.refl _)
    hAnswers (hCovers.trace hTrace hExpected) (hFewer.trans_le (Nat.le_of_lt_succ hBound)) outside
  rw [hTrace.listeners, hTrace.ids] at hMade
  exact ⟨hTests, made, .cons hSets hTrace hUnfolds hMade⟩

/-- A set ends when announcements may nest deeper than there are switches to move. -/
theorem settles_setWithin (sets : Target → Prop) (named : List Target) (depth : Nat) :
    Settles sets named depth (endsWithin depth) (setWithin depth) := by
  -- over the depth: whatever is set in answer to a change finds one switch fewer to move
  induction depth with
  | zero => exact fun _ _ _ _ _ hBound => absurd hBound (Nat.not_lt_zero _)
  | succ depth ih =>
    intro t r host hSets hCovers hBound
    rw [endsWithin]
    change _ ∧ ∃ made, Unfolds sets made r
      (setWith (setWithin depth) t.1 (.bool t.2) r host).2.1 ∧ _
    rcases setWith_cases t.1 (.bool t.2) r host with
      ⟨hNone, e, hEq⟩ | ⟨hNone, s, b, hSetting, hValue, hSame, hEq⟩ | ⟨b, told, later, hSome, _⟩
    · rw [hNone, hEq]
      refine ⟨rfl, [], .refl sets r, ?_⟩
      intro hKnown
      obtain ⟨s, hSetting⟩ := (r.mem_ids_iff t.1).mp hKnown
      have hOk := setWith_of_known hCovers.signal hSetting (setWithin depth) t.2 host
      rw [hEq] at hOk
      cases hOk
    · cases hValue
      rw [hNone, hEq]
      exact ⟨rfl, [t.request], unfolds_unchanged hSets hSetting hSame host,
        fun _ => List.mem_singleton_self _⟩
    · obtain ⟨hTests, made, hUnfolds⟩ := ih.change hSets hCovers hBound hSome
      rw [hSome, setWith_of_announcement hCovers.signal hSome]
      exact ⟨hTests, t.request :: made, hUnfolds, fun _ => List.mem_cons_self⟩

/-! ## Whole cascades -/

theorem mem_targets_of_ensues (h : Ensues r t u) : u ∈ targets t r.listeners := by
  cases h with
  | asked => exact List.mem_cons_self
  | answered _ _ hListener hAnswer =>
    exact List.mem_cons_of_mem _
      (List.mem_filterMap.mpr ⟨_, hListener, Listener.target?_of_answer? hAnswer⟩)

theorem covers_ensues (hSignal : r.signal.Contains)
    (hPlain : ∀ listener ∈ r.listeners, listener.IsPlain)
    (hConsistent : Consistent (targets t r.listeners)) :
    Covers (Ensues r t) (targets t r.listeners) r where
  signal := hSignal
  plain := hPlain
  consistent := hConsistent
  named _ := mem_targets_of_ensues
  answers _ h hMoves _ hListener _ hAnswer := .answered h hMoves hListener hAnswer

theorem Unfolds.agreeing (hCovers : Covers sets named r) (h : Unfolds sets made r later) :
    Agreeing made := by
  intro request hMem other hOther hSame
  obtain ⟨t, hFirst, rfl⟩ := h.expected request hMem
  obtain ⟨u, hSecond, rfl⟩ := h.expected other hOther
  have hPosition := hCovers.consistent t (hCovers.named t hFirst) u (hCovers.named u hSecond) hSame
  exact congrArg Target.request (Prod.ext hSame hPosition)

/-- Where a set ends, what is made in its course is what it leads to, as far as switches are
known. -/
theorem exists_cascade {limit : Nat} (hSignal : r.signal.Contains)
    (hPlain : ∀ listener ∈ r.listeners, listener.IsPlain)
    (hConsistent : Consistent (targets t r.listeners))
    (hLimit : (unsettled (targets t r.listeners) r).card < limit) (host : Host) :
    endsWithin limit t.1 (.bool t.2) r host = true ∧
      ∃ made, Trace made r (setWithin limit t.1 (.bool t.2) r host).2.1 ∧ Agreeing made ∧
        ∀ request, request ∈ made ↔ ∃ u, Ensues r t u ∧ u.1 ∈ r.ids ∧ request = u.request := by
  have hCovers := covers_ensues hSignal hPlain hConsistent
  obtain ⟨hEnds, made, hUnfolds, hOwn⟩ :=
    settles_setWithin (Ensues r t) _ limit t r host .asked hCovers hLimit
  have hAgreeing := hUnfolds.agreeing hCovers
  have hAll : ∀ u, Ensues r t u → u.1 ∈ r.ids → u.request ∈ made := by
    intro u hEnsues
    induction hEnsues with
    | asked => exact hOwn
    | answered _ hMoves hListener hAnswer ih =>
      intro hKnown
      have hMoved := mem_ids_of_moves hMoves
      have hChange := (mem_changes_iff hAgreeing hUnfolds.trace.isBool _).mpr
        ⟨ih hMoved, by simpa [moves_eq_not_stays hMoved] using hMoves⟩
      exact hUnfolds.answered _ hChange _ hListener _ hAnswer hKnown
  refine ⟨hEnds, made, hUnfolds.trace, hAgreeing, fun request => ⟨?_, ?_⟩⟩
  · intro hMem
    obtain ⟨u, hEnsues, rfl⟩ := hUnfolds.expected request hMem
    exact ⟨u, hEnsues, hUnfolds.trace.known _ hMem, rfl⟩
  · rintro ⟨u, hEnsues, hKnown, rfl⟩
    exact hAll u hEnsues hKnown

/-! ## Another order -/

variable {order : List Listener}

theorem Ensues.reorder (hListeners : r.listeners ⊆ order) (h : Ensues r t u) :
    Ensues { r with listeners := order } t u := by
  induction h with
  | asked => exact .asked
  | answered _ hMoves hListener hAnswer ih =>
    exact .answered ih hMoves (hListeners hListener) hAnswer

theorem ensues_reorder_iff (hOrder : order.Perm r.listeners) :
    Ensues { r with listeners := order } t u ↔ Ensues r t u :=
  ⟨fun h => Ensues.reorder (r := { r with listeners := order }) hOrder.subset h,
    fun h => h.reorder hOrder.symm.subset⟩

theorem Consistent.subset {part : List Target} (hSubset : part ⊆ named) (h : Consistent named) :
    Consistent part :=
  fun t hFirst u hSecond => h t (hSubset hFirst) u (hSubset hSecond)

theorem targets_subset (t : Target) {listeners : List Listener} (h : order ⊆ listeners) :
    targets t order ⊆ targets t listeners :=
  List.cons_subset_cons t (List.filterMap_subset _ h)

theorem unsettled_subset {part : List Target} (hSubset : part ⊆ named) (r : Registry) :
    unsettled part r ⊆ unsettled named r := by
  intro id hMem
  obtain ⟨hKnown, t, hNamed, hMoves⟩ := Finset.mem_filter.mp hMem
  exact Finset.mem_filter.mpr ⟨hKnown, t, hSubset hNamed, hMoves⟩

theorem card_unsettled_le (named : List Target) (r : Registry) :
    (unsettled named r).card ≤ r.settings.length :=
  ((Finset.card_filter_le _ _).trans (List.toFinset_card_le _)).trans_eq (List.length_map _)

theorem Trace.changesSince_eq (h : Trace made r later) :
    changesSince r later = changes r.position? made := by
  rw [changesSince, h.assigned, List.drop_left]

/-- The saves submitted since an earlier moment. -/
def submittedSince (r later : Registry) : List SaveRequest :=
  later.submitted.drop r.submitted.length

theorem Trace.submittedSince_eq (h : Trace made r later) (hOrderly : r.Orderly) :
    submittedSince r later = if r.queue.isSome then made else [] := by
  split
  · rename_i hQueue
    rw [submittedSince, h.submitted hOrderly hQueue, List.drop_left]
  · rename_i hQueue
    rw [← h.queue, Bool.not_eq_true, Option.isSome_eq_false_iff,
      Option.isNone_iff_eq_none] at hQueue
    have hNone : later.submitted = [] := by rw [Registry.submitted, hQueue]; rfl
    rw [submittedSince, hNone, List.drop_nil]

theorem exists_split_of_perm {listener : Listener} {before after : List Listener}
    (h : order.Perm (before ++ listener :: after)) (hOnce : listener ∉ before ++ after) :
    ∃ early late, order = early ++ listener :: late ∧ listener ∉ early ++ late := by
  obtain ⟨early, late, rfl⟩ :=
    List.append_of_mem (h.symm.subset (List.mem_append_right _ List.mem_cons_self))
  have hRest := (List.perm_middle.symm.trans (h.trans List.perm_middle)).cons_inv
  exact ⟨early, late, rfl, fun hMem => hOnce (hRest.subset hMem)⟩

theorem setWith_result_reorder (hSignal : r.signal.Contains) (nested : Setter) (id : Text)
    (b : Bool) (order : List Listener) (host : Host) :
    (setWith nested id (.bool b) { r with listeners := order } host).1 =
      (setWith nested id (.bool b) r host).1 := by
  cases hSetting : r.setting? id with
  | none =>
    have hAlso : { r with listeners := order : Registry }.setting? id = none := hSetting
    unfold setWith
    rw [hSetting, hAlso]
  | some s =>
    rw [setWith_of_known hSignal hSetting,
      setWith_of_known (r := { r with listeners := order }) hSignal hSetting]

/-- Where a set and the rules never name one switch with both positions, the set ends: announcements
nest no deeper in it than there are switches to move. However much deeper they may nest, each switch
changes at most once, and in whichever order the rules are connected, the same changes are made and
heard of, the switches come to the same positions and the last saves submitted for them are the
same. -/
theorem consistent_cascade_independent_of_order (r : Registry) (host : Host) (id : Text) (b : Bool)
    (order : List Listener) (hSignal : r.signal.Contains)
    (hPlain : ∀ listener ∈ r.listeners, listener.IsPlain)
    (hConsistent : Consistent (targets (id, b) r.listeners)) (hOrder : order.Perm r.listeners) :
    let depth := (unsettled (targets (id, b) r.listeners) r).card + 1
    depth ≤ r.settings.length + 1 ∧ endsWithin depth id (.bool b) r host = true ∧
    ∀ limit ≥ depth,
      let first := setWithin limit id (.bool b) r host
      let second := setWithin limit id (.bool b) { r with listeners := order } host
      first.1 = second.1 ∧
      ((changesSince r first.2.1).map SaveRequest.id).Nodup ∧
      (changesSince r second.2.1).Perm (changesSince r first.2.1) ∧
      (∀ tag before after, r.listeners = before ++ .recorder tag :: after →
        .recorder tag ∉ before ++ after →
        (heardSince tag r first.2.1).Perm (changesSince r first.2.1) ∧
        (heardSince tag r second.2.1).Perm (changesSince r first.2.1)) ∧
      (∀ name, first.2.1.get name = second.2.1.get name) ∧
      (r.Orderly → ∀ name, lastSave? name (submittedSince r first.2.1) =
        lastSave? name (submittedSince r second.2.1)) := by
  intro depth
  obtain ⟨hEnds, _⟩ :=
    exists_cascade (t := (id, b)) hSignal hPlain hConsistent (Nat.lt_succ_self _) host
  refine ⟨Nat.succ_le_succ (card_unsettled_le _ r), hEnds, ?_⟩
  intro limit hLimit first second
  have hNamed := targets_subset (id, b) hOrder.subset
  obtain ⟨hFirstEnds, made, hFirst, hAgreeing, hMade⟩ :=
    exists_cascade (t := (id, b)) hSignal hPlain hConsistent hLimit host
  obtain ⟨hSecondEnds, more, hSecond, _, hMore⟩ :=
    exists_cascade (t := (id, b)) (r := { r with listeners := order }) hSignal
      (fun listener hMem => hPlain listener (hOrder.subset hMem)) (hConsistent.subset hNamed)
      ((Finset.card_le_card (unsettled_subset hNamed r)).trans_lt hLimit) host
  have hSame : ∀ request, request ∈ made ↔ request ∈ more := by
    intro request
    rw [hMade, hMore]
    refine exists_congr fun u => and_congr_left fun _ => ?_
    exact (ensues_reorder_iff hOrder).symm
  have hChanges : changesSince r first.2.1 = changes r.position? made := hFirst.changesSince_eq
  have hOthers : changesSince r second.2.1 = changes r.position? more := hSecond.changesSince_eq
  have hPerm : (changesSince r second.2.1).Perm (changesSince r first.2.1) := by
    rw [hChanges, hOthers]
    exact perm_changes hAgreeing hFirst.isBool hSame r.position?
  refine ⟨?_, hChanges ▸ nodup_changes hAgreeing hFirst.isBool, hPerm, ?_, ?_, ?_⟩
  · obtain ⟨nested, rfl⟩ := Nat.exists_eq_succ_of_ne_zero (Nat.ne_zero_of_lt hLimit)
    exact (setWith_result_reorder hSignal (setWithin nested) id b order host).symm
  · intro tag before after hListeners hTag
    refine ⟨(keeps_perm hSignal hTag limit id _ r host rfl hListeners hFirstEnds).compare, ?_⟩
    obtain ⟨early, late, hSplit, hOnce⟩ := exists_split_of_perm (hListeners ▸ hOrder) hTag
    exact (keeps_perm hSignal hOnce limit id _ { r with listeners := order } host rfl hSplit
      hSecondEnds).compare.trans hPerm
  · intro name
    rw [get_eq, get_eq, hFirst.position, hSecond.position, wantedAfter_eq, wantedAfter_eq,
      lastSave?_congr hAgreeing hSame]
    rfl
  · intro hOrderly name
    have hAfter : submittedSince r second.2.1 = if r.queue.isSome then more else [] :=
      hSecond.submittedSince_eq hOrderly
    rw [hFirst.submittedSince_eq hOrderly, hAfter]
    split
    · exact lastSave?_congr hAgreeing hSame name
    · rfl

/-- The mouse switches logging on, that the history, and that the mouse again. The history is also
switched on with the mouse, and something is tried then that is no switch. -/
def ringed : Registry where
  settings := Descriptor.table.map fun d => ⟨d, d.default⟩
  queue := some { backend := failingBackend }
  listeners :=
    [.rule Descriptor.mouseEnabled true Descriptor.loggingEnabled true, .recorder "seen",
      .rule Descriptor.loggingEnabled true Descriptor.saveHistory true,
      .rule Descriptor.saveHistory true Descriptor.mouseEnabled true,
      .rule Descriptor.saveHistory true "no_such_switch" false,
      .rule Descriptor.mouseEnabled true Descriptor.saveHistory true]

/-- The other way round the same changes are made, though they are heard in another order. -/
theorem consistent_cascade_independent_of_order_in_ring :
    ringed.signal.Contains ∧ (∀ listener ∈ ringed.listeners, listener.IsPlain) ∧
      Consistent (targets (Descriptor.mouseEnabled, true) ringed.listeners) ∧
      ringed.listeners.reverse.Perm ringed.listeners ∧
      let first := setWithin cascadeLimit Descriptor.mouseEnabled true ringed (Host.sample [])
      let second := setWithin cascadeLimit Descriptor.mouseEnabled true
        { ringed with listeners := ringed.listeners.reverse } (Host.sample [])
      changesSince ringed first.2.1 =
        [⟨Descriptor.mouseEnabled, true⟩, ⟨Descriptor.loggingEnabled, true⟩,
          ⟨Descriptor.saveHistory, true⟩] ∧
      (changesSince ringed second.2.1).Perm (changesSince ringed first.2.1) ∧
      heardSince "seen" ringed second.2.1 ≠ heardSince "seen" ringed first.2.1 ∧
      second.2.1.get Descriptor.saveHistory = .ok true ∧
      lastSave? Descriptor.mouseEnabled (submittedSince ringed second.2.1) =
        some ⟨Descriptor.mouseEnabled, true⟩ := by
  have hSignal : ringed.signal.Contains := fun _ => rfl
  have hPlain : ∀ listener ∈ ringed.listeners, listener.IsPlain := by
    simp [ringed, Listener.IsPlain]
  have hConsistent : Consistent (targets (Descriptor.mouseEnabled, true) ringed.listeners) := by
    decide +kernel
  have hOrder : ringed.listeners.reverse.Perm ringed.listeners := List.reverse_perm _
  have hOrderly : ringed.Orderly := by
    rintro _ ⟨⟩
    exact WriteQueue.orderly_new _
  obtain ⟨hDepth, _, hRun⟩ := consistent_cascade_independent_of_order ringed (Host.sample [])
    Descriptor.mouseEnabled true _ hSignal hPlain hConsistent hOrder
  obtain ⟨_, _, hPerm, _, hGet, hSaved⟩ :=
    hRun cascadeLimit (hDepth.trans (by decide : ringed.settings.length + 1 ≤ cascadeLimit))
  refine ⟨hSignal, hPlain, hConsistent, hOrder, by decide +kernel, hPerm, by decide +kernel, ?_, ?_⟩
  · rw [← hGet]
    rfl
  · rw [← hSaved hOrderly]
    decide +kernel

end Registry

end Switchboard
