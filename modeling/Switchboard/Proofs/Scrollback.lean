import Mathlib.Data.List.DropRight
import Mathlib.Order.Bounds.Basic
import Switchboard.Proofs.Registry.Hearing
import Switchboard.Scrollback

/-!
# How far scrollback is scrolled

The offset cannot go below the live end, so that it forgets: turning the wheel further forth than
there is to go leaves nothing to make up for. What is left is given by the latest turns alone. The
offset is what they sum up to from the turn on, since the last reset, from which they sum up to most.
Whether the wheel turns at all was decided at the start, and setting switches does not change it.
-/

namespace Switchboard.Scrollback

inductive Move
  | set (id : Text) (value : Json)
  | wheel (notches : Int)
  | reset

def Move.isReset : Move → Bool
  | reset => true
  | _ => false

def Move.notches? : Move → Option Int
  | wheel notches => some notches
  | _ => none

def Move.apply : Move → Scrollback × Registry × Host → Scrollback × Registry × Host
  | set id value, (s, r, host) => (s, (r.set id value host).2)
  | wheel notches, (s, r, host) => ((s.wheel notches).2, r, host)
  | reset, (s, r, host) => (s.reset, r, host)

def run (moves : List Move) (start : Scrollback × Registry × Host) : Scrollback × Registry × Host :=
  moves.foldl (fun state move => move.apply state) start

/-- The turns of the wheel since the last reset, oldest first. -/
def turns (moves : List Move) : List Int :=
  (moves.rtakeWhile fun move => !move.isReset).filterMap Move.notches?

/-- What the latest turns may sum up to, however many of them are counted. -/
def recentSums (turns : List Int) : Set Int :=
  {sum | ∃ latest, latest <:+ turns ∧ latest.sum = sum}

variable {moves : List Move} {state : Scrollback × Registry × Host} {s : Scrollback}

theorem run_concat (moves : List Move) (move : Move) (state : Scrollback × Registry × Host) :
    run (moves ++ [move]) state = move.apply (run moves state) := by
  rw [run, run, List.foldl_concat]

/-! ## Sums of the latest turns -/

theorem turns_concat_of_not_reset {move : Move} (hMove : move.isReset = false) :
    turns (moves ++ [move]) = turns moves ++ move.notches?.toList := by
  rw [turns, List.rtakeWhile_concat_pos _ _ _ (by simp [hMove]), List.filterMap_append]
  cases hNotches : move.notches? with
  | none => simp [turns, hNotches]
  | some n => simp [turns, hNotches]

theorem turns_concat_reset : turns (moves ++ [.reset]) = [] := by
  rw [turns, List.rtakeWhile_concat_neg _ _ _ (by simp [Move.isReset])]
  rfl

theorem recentSums_nil : recentSums [] = {0} := by
  ext sum
  simp [recentSums, eq_comm]

theorem mem_recentSums_concat {turns : List Int} {notches sum : Int} :
    sum ∈ recentSums (turns ++ [notches]) ↔
      sum = 0 ∨ ∃ earlier ∈ recentSums turns, sum = earlier + notches := by
  constructor
  · rintro ⟨latest, hLatest, rfl⟩
    rcases List.suffix_concat_iff.mp hLatest with rfl | ⟨shorter, rfl, hShorter⟩
    · exact .inl rfl
    · exact .inr ⟨_, ⟨shorter, hShorter, rfl⟩, by simp⟩
  · rintro (rfl | ⟨_, ⟨latest, hLatest, rfl⟩, rfl⟩)
    · exact ⟨[], List.nil_suffix, rfl⟩
    · exact ⟨latest ++ [notches], List.suffix_concat_iff.mpr (.inr ⟨latest, rfl, hLatest⟩), by simp⟩

/-- One more turn adds to the greatest sum, unless it takes more than that. -/
theorem isGreatest_recentSums_concat {turns : List Int} {most : Int}
    (h : IsGreatest (recentSums turns) most) (notches : Int) :
    IsGreatest (recentSums (turns ++ [notches])) (max 0 (most + notches)) := by
  obtain ⟨hReached, hBound⟩ := h
  constructor
  · rw [mem_recentSums_concat]
    rcases le_total (most + notches) 0 with hForth | hBack
    · exact .inl (max_eq_left hForth)
    · exact .inr ⟨most, hReached, max_eq_right hBack⟩
  · intro sum hSum
    rcases mem_recentSums_concat.mp hSum with rfl | ⟨earlier, hEarlier, rfl⟩
    · exact le_max_left _ _
    · have hEarlier := hBound hEarlier
      omega

/-! ## Moves -/

/-- Scrollback is as far off the live end as the latest turns make it, and off it at all only if
the wheel turns. -/
structure Follows (on : Bool) (turns : List Int) (s : Scrollback) : Prop where
  enabled : s.enabled = .bool on
  still : on = false → s.offset = 0
  offset : on = true → ∃ most, IsGreatest (recentSums turns) most ∧ (s.offset : Int) = 3 * most

theorem start_follows (on : Bool) (host : Host) : Follows on [] (start (.bool on) host).1 where
  enabled := rfl
  still _ := rfl
  offset _ := ⟨0, by rw [recentSums_nil]; exact isGreatest_singleton, rfl⟩

theorem Follows.reset {on : Bool} {turns : List Int} (h : Follows on turns s) :
    Follows on [] s.reset where
  enabled := h.enabled
  still _ := rfl
  offset _ := ⟨0, by rw [recentSums_nil]; exact isGreatest_singleton, rfl⟩

theorem Follows.wheel {on : Bool} {turns : List Int} (h : Follows on turns s) (notches : Int) :
    Follows on (turns ++ [notches]) (s.wheel notches).2 := by
  obtain ⟨hEnabled, hStill, hOffset⟩ := h
  cases on with
  | false =>
    have hWheel : s.wheel notches = (false, s) := by
      rw [Scrollback.wheel, hEnabled]
      rfl
    rw [hWheel]
    exact ⟨hEnabled, hStill, nofun⟩
  | true =>
    have hWheel : s.wheel notches =
        (true, { s with offset := (s.offset + notches * linesPerNotch).toNat }) := by
      rw [Scrollback.wheel, hEnabled]
      rfl
    rw [hWheel]
    obtain ⟨most, hMost, hOff⟩ := hOffset rfl
    refine ⟨hEnabled, nofun, fun _ => ⟨_, isGreatest_recentSums_concat hMost notches, ?_⟩⟩
    -- the offset stops at the live end where the sum starts anew
    simp only [linesPerNotch]
    omega

theorem Follows.apply {on : Bool} (h : Follows on (turns moves) state.1) (move : Move) :
    Follows on (turns (moves ++ [move])) (move.apply state).1 := by
  cases move with
  | set id value =>
    rw [turns_concat_of_not_reset rfl]
    simpa [Move.notches?, Move.apply] using h
  | wheel notches =>
    rw [turns_concat_of_not_reset rfl]
    exact h.wheel notches
  | reset =>
    rw [turns_concat_reset]
    exact h.reset

theorem run_follows {on : Bool} (h : Follows on [] state.1) (moves : List Move) :
    Follows on (turns moves) (run moves state).1 := by
  induction moves using List.reverseRecOn with
  | nil => exact h
  | append_singleton moves move ih =>
    rw [run_concat]
    exact ih.apply move

theorem Follows.answers {on : Bool} {turns : List Int} (h : Follows on turns s) (notches : Int) :
    (s.wheel notches).1 = on := by
  rw [Scrollback.wheel, h.enabled]
  cases on with
  | false => rfl
  | true => rfl

/-- Scrollback goes by the position that the mouse switch had when it was set up, whatever is set
after that. Switched off, it turns down every turn of the wheel and stays at the live end. Switched
on, it takes every turn, and is three lines off the live end for every notch of the latest turns
since the last reset, as many of them counted as sum up to most. -/
theorem scrolls_by_latest_turns (r : Registry) (host : Host) (on : Bool)
    (hMouse : r.get Descriptor.mouseEnabled = .ok (.bool on)) (moves : List Move) :
    let first := start (.bool on) host
    let s := (run moves (first.1, r, first.2)).1
    r.get Descriptor.mouseEnabled = .ok s.enabled ∧
    (∀ notches, (s.wheel notches).1 = on) ∧
    (on = false → s.offset = 0) ∧
    (on = true → ∃ most, IsGreatest (recentSums (turns moves)) most ∧
      (s.offset : Int) = 3 * most) := by
  intro first s
  have hFollows : Follows on (turns moves) s := run_follows (start_follows on host) moves
  refine ⟨?_, hFollows.answers, hFollows.still, hFollows.offset⟩
  rw [hMouse, hFollows.enabled]

def mouseless : Registry where
  settings := Descriptor.table.map fun d => ⟨d, .bool (d.id = Descriptor.mouseEnabled)⟩
  listeners := [.rule Descriptor.loggingEnabled true Descriptor.mouseEnabled false]

/-- Some turns back and forth, and with logging on some more. After the reset the wheel is turned
forth beyond the live end, then four notches back, one forth and two back again. -/
def wandering : List Move :=
  [.wheel 7, .wheel (-2), .set Descriptor.loggingEnabled true, .wheel 1, .reset, .wheel 1,
    .wheel (-6), .wheel 4, .set Descriptor.mouseEnabled false, .wheel (-1), .wheel 2]

/-- The mouse has been switched off meanwhile. -/
theorem scrolls_five_notches_with_mouse_off :
    mouseless.get Descriptor.mouseEnabled = .ok (.bool true) ∧
      let first := start (.bool true) (Host.sample [])
      let (s, r, _) := run wandering (first.1, mouseless, first.2)
      r.get Descriptor.mouseEnabled = .ok (.bool false) ∧
        mouseless.get Descriptor.mouseEnabled = .ok s.enabled ∧ (s.wheel 1).1 = true ∧
        s.offset = 15 ∧ IsGreatest (recentSums (turns wandering)) 5 := by
  have hMouse : mouseless.get Descriptor.mouseEnabled = .ok (.bool true) := by rfl
  obtain ⟨hEnabled, hAnswers, -, hOffset⟩ :=
    scrolls_by_latest_turns mouseless (Host.sample []) true hMouse wandering
  obtain ⟨most, hMost, hOff⟩ := hOffset rfl
  have hFive : most = 5 := by
    have hFifteen : (15 : Int) = 3 * most := hOff
    omega
  exact ⟨hMouse, by rfl, hEnabled, hAnswers 1, by rfl, hFive ▸ hMost⟩

end Switchboard.Scrollback
