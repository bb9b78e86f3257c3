import CodeStrudy.AlienInvasion.Geometry
import Mathlib.Data.List.Chain

/-!
# Turns of the fleet

A frame turns the fleet when an alien is at an edge, and then moves every alien by the speed of the
fleet in its direction.  The move after a turn is the last move undone: it brings all aliens back to
where they were one frame before, and there none was at an edge, or that frame would have turned the
fleet.  So two frames in a row never turn it, however long a step is against the margins.  It takes
a fixed display: after a change of its size what was no edge may be one.

## What is proved

* `turns_isChain`: with a fixed display no two consecutive frames of a run turn the fleet.
-/

namespace CodeStrudy
namespace AlienInvasion

open Foundation

variable {c : Config} {s t : State} {a : Label}

/-- An alien of width `w` at position `x` is at an edge of the display. -/
def EdgeAt (display : Size) (w : ℤ) (x : ℚ) : Prop :=
  (Rect.ofSize display).right ≤ trunc x + w ∨ trunc x ≤ 0

/-- The step that an alien makes in a frame. -/
def State.stride (s : State) : ℚ := s.settings.alienSpeed * s.settings.fleetDirection

/-- No alien is at an edge. -/
def Free (s : State) : Prop := ∀ alien ∈ s.aliens, ¬ EdgeAt s.display alien.rect.w alien.x

/-- No alien would be at an edge had the last move not been made. -/
def WasFree (s : State) : Prop :=
  ∀ alien ∈ s.aliens, ¬ EdgeAt s.display alien.rect.w (alien.x - s.stride)

/-- The aliens' rectangles follow their positions, and no two frames in a row have turned the fleet.
If an alien is at an edge now, the last frame has not turned it, and none was at an edge then. -/
structure Turning (c : Config) (s : State) : Prop where
  placed : Placed c s
  trunc_x : ∀ alien ∈ s.aliens, alien.rect.x = trunc alien.x
  free : Free s ∨ s.hist.turns.head? ≠ some true ∧ WasFree s
  turns : s.hist.turns.IsChain fun a b => ¬ (a = true ∧ b = true)

/-- Where the rectangles follow the positions, the test at the edges is one of the positions. -/
theorem free_iff (htrunc : ∀ alien ∈ s.aliens, alien.rect.x = trunc alien.x) :
    Free s ↔ ¬ AtEdge s := by
  have hedge : ∀ alien ∈ s.aliens,
      EdgeAt s.display alien.rect.w alien.x ↔ alien.CheckEdges s.display := by
    intro alien halien
    rw [EdgeAt, ← htrunc alien halien]
    rfl
  constructor
  · rintro hfree ⟨alien, halien, h⟩
    exact hfree alien halien ((hedge alien halien).mpr h)
  · intro hnot alien halien h
    exact hnot ⟨alien, halien, (hedge alien halien).mp h⟩

/-- A new fleet is free. -/
theorem Turning.fresh (hplaced : Placed c s) {shipHeigh : ℤ}
    (h : s.aliens = fleet c s.settings shipHeigh)
    (hturns : s.hist.turns.IsChain fun a b => ¬ (a = true ∧ b = true)) : Turning c s := by
  have htrunc : ∀ alien ∈ s.aliens, alien.rect.x = trunc alien.x := by
    intro alien halien
    obtain ⟨row, -, col, -, rfl⟩ := mem_fleet_iff.mp (h ▸ halien)
    exact (trunc_intCast _).symm
  refine ⟨hplaced, htrunc, .inl ?_, hturns⟩
  rw [free_iff htrunc]
  rintro ⟨alien, halien, hedge⟩
  exact not_checkEdges_of_mem_fleet hplaced (h ▸ halien) hedge

/-- A frame that does not turn the fleet leaves it where it can go back to. -/
theorem wasFree_moveAliens (hfree : Free s) {turned : Bool} :
    WasFree (moveAliens (remember turned s)) := by
  intro alien halien
  obtain ⟨before, hbefore, rfl⟩ := List.mem_map.mp halien
  have hback : (before.update s.stride).x - s.stride = before.x := add_sub_cancel_right _ _
  show ¬ EdgeAt s.display before.rect.w ((before.update s.stride).x - s.stride)
  rw [hback]
  exact hfree before hbefore

/-- A frame that turns the fleet undoes its last move. -/
theorem free_of_turned (hwas : WasFree s) {turned : Bool} :
    Free (moveAliens (remember turned (changeFleetDirection s))) := by
  intro alien halien
  obtain ⟨dropped, hdropped, rfl⟩ := List.mem_map.mp halien
  obtain ⟨before, hbefore, rfl⟩ := List.mem_map.mp hdropped
  have hback : before.x + s.settings.alienSpeed * ((-s.settings.fleetDirection : ℤ) : ℚ) =
      before.x - s.stride := by
    unfold State.stride
    push_cast
    ring
  show ¬ EdgeAt s.display before.rect.w
    (before.x + s.settings.alienSpeed * ((-s.settings.fleetDirection : ℤ) : ℚ))
  rw [hback]
  exact hwas before hbefore

theorem trunc_moveAliens (s : State) :
    ∀ alien ∈ (moveAliens s).aliens, alien.rect.x = trunc alien.x := by
  intro alien halien
  obtain ⟨before, -, rfl⟩ := List.mem_map.mp halien
  rfl

/-- A step that at most takes aliens away. -/
theorem Turning.shot (hs : Turning c s) (hplaced : Placed c t)
    (hmem : ∀ alien ∈ t.aliens, alien ∈ s.aliens) (hdisplay : t.display = s.display)
    (hsettings : t.settings = s.settings) (hhist : t.hist = s.hist) : Turning c t := by
  refine ⟨hplaced, fun alien h => hs.trunc_x alien (hmem alien h), ?_, hhist ▸ hs.turns⟩
  unfold Free WasFree State.stride
  rw [hdisplay, hsettings, hhist]
  exact hs.free.imp (fun hfree alien h => hfree alien (hmem alien h))
    fun hwas => ⟨hwas.1, fun alien h => hwas.2 alien (hmem alien h)⟩

theorem Turning.step (hs : Turning c s) (hfixed : a ≠ .event (.keyDown .f))
    (h : Effect c s a t) : Turning c t := by
  have hplaced : Placed c t := hs.placed.step h
  cases h with
  | idle _ _ _ hidle =>
    exact hs.shot hplaced (fun _ h => hidle.aliens ▸ h) hidle.display hidle.settings hidle.hist
  | fullScreen => exact absurd rfl hfixed
  | play => exact .fresh hplaced rfl hs.turns
  | cleared => exact .fresh hplaced rfl hs.turns
  | charged => exact .fresh hplaced rfl hs.turns
  | shot => exact hs.shot hplaced (fun _ h => mem_of_mem_groupcollide h) rfl rfl rfl
  | turned _ hedge =>
    rcases hs.free with hfree | ⟨hlast, hwas⟩
    · exact absurd hedge ((free_iff hs.trunc_x).mp hfree)
    · refine ⟨hplaced, trunc_moveAliens _, .inl (free_of_turned hwas), ?_⟩
      refine List.isChain_cons.mpr ⟨?_, hs.turns⟩
      rintro b hb ⟨-, rfl⟩
      exact hlast hb
  | ahead _ hedge =>
    have hfree := (free_iff hs.trunc_x).mpr hedge
    refine ⟨hplaced, trunc_moveAliens _, .inr ⟨?_, wasFree_moveAliens hfree⟩, ?_⟩
    · exact fun h => by cases h
    · exact List.isChain_cons.mpr ⟨fun _ _ h => Bool.false_ne_true h.1, hs.turns⟩
  | frame | ship | lost | missed | screen => exact { hs with placed := hplaced }

/-- **Turns of the fleet.**  With a fixed display no two consecutive frames turn the fleet. -/
theorem turns_isChain (c : Config) {s : State}
    (h : (machine c).ReachableUnder (fun _ a => a ≠ .event (.keyDown .f)) s) :
    s.hist.turns.IsChain fun a b => ¬ (a = true ∧ b = true) := by
  refine (h.invariant (I := Turning c) ?_ ?_).turns
  · rintro s rfl
    exact .fresh (Placed.initial c) rfl List.isChain_nil
  · exact fun s a t hs hfixed hst => hs.step hfixed (effect_of_step hst)

/-- Five frames of the small window; the fleet turns in the third and in the fifth. -/
theorem turns_isChain_game :
    ∃ s, (machine smallWindow).run (initial smallWindow) (played (5, 5) [] 35) = some s ∧
      s.hist.turns = [true, false, true, false, false] ∧
      s.hist.turns.IsChain fun a b => ¬ (a = true ∧ b = true) := by
  obtain ⟨s, hrun, hs⟩ := (Option.any_eq_true _ _).mp
    (show ((machine smallWindow).run (initial smallWindow) (played (5, 5) [] 35)).any
      (fun s => s.hist.turns = [true, false, true, false, false]) = true by decide +kernel)
  have hfixed : (machine smallWindow).Respects (fun _ a => a ≠ .event (.keyDown .f))
      (initial smallWindow) (played (5, 5) [] 35) := by
    decide +kernel
  exact ⟨s, hrun, of_decide_eq_true hs,
    turns_isChain _ ((Machine.ReachableUnder.init rfl).run _ hfixed hrun)⟩

end AlienInvasion
end CodeStrudy
