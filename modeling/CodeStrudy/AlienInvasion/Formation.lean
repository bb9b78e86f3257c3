import CodeStrudy.AlienInvasion.Geometry
import Mathlib.Data.List.Nodup

/-!
# The formation of the fleet

Every alien keeps its own position as a fraction, and its rectangle gets it by truncation toward
zero.  Around zero two aliens of a row come one pixel nearer to each other by that.  But all of them
have made the same moves, so the fleet is always what is left of one grid that was shifted as a
whole, and the gap of an alien's width between two columns is large enough.

## What is proved

* `InFormation.step`: every step keeps the formation.
* `aliens_apart`: in every reachable state the fleet is in formation, and no two aliens share a
  place.
* `one_alien_a_bullet`: where an alien is at least as high as a bullet less one and as wide as one,
  the bullets that a frame takes away are as many as the aliens it takes away.
-/

namespace CodeStrudy
namespace AlienInvasion

open Foundation

variable {c : Config} {s t : State} {a : Label}

/-- The alien in a column and a row of the grid, after the grid has been shifted. -/
def alienAt (c : Config) (dx : ℚ) (dy : ℤ) (cell : ℕ × ℕ) : Alien where
  rect := ⟨trunc (dx + (c.alien.w + 2 * c.alien.w * cell.1 : ℤ)),
    c.alien.h + 2 * c.alien.h * cell.2 + dy, c.alien.w, c.alien.h⟩
  x := dx + (c.alien.w + 2 * c.alien.w * cell.1 : ℤ)

/-- The aliens are what is left of a grid that has been shifted as a whole. -/
def InFormation (c : Config) (aliens : List Alien) : Prop :=
  ∃ (dx : ℚ) (dy : ℤ) (cells : List (ℕ × ℕ)),
    cells.Nodup ∧ aliens = cells.map (alienAt c dx dy)

/-! ## The grid -/

theorem createAlien_eq (c : Config) (col row : ℕ) :
    createAlien c col row = alienAt c 0 0 (col, row) := by
  simp only [createAlien, alienAt, zero_add, add_zero, trunc_intCast]

/-- A new fleet is the grid itself. -/
theorem inFormation_fleet (c : Config) (g : Settings) (shipHeigh : ℤ) :
    InFormation c (fleet c g shipHeigh) := by
  refine ⟨0, 0, (List.range (numberRows c g shipHeigh)).flatMap fun row =>
    (List.range (numberAliensX c g)).map fun col => (col, row), ?_, ?_⟩
  · refine List.nodup_flatMap.mpr ⟨fun row _ => ?_, ?_⟩
    · exact List.nodup_range.map fun col col' h => (Prod.mk.inj h).1
    · refine List.pairwise_lt_range.imp fun hlt cell hcell hcell' => ?_
      obtain ⟨col, -, rfl⟩ := List.mem_map.mp hcell
      obtain ⟨col', -, heq⟩ := List.mem_map.mp hcell'
      exact absurd (Prod.mk.inj heq).2 hlt.ne'
  · simp only [fleet, List.map_flatMap, List.map_map, createAlien_eq]
    rfl

/-- What is left of a formation is one. -/
theorem InFormation.filter {aliens : List Alien} (h : InFormation c aliens) (p : Alien → Bool) :
    InFormation c (aliens.filter p) := by
  obtain ⟨dx, dy, cells, hnodup, rfl⟩ := h
  exact ⟨dx, dy, cells.filter (p ∘ alienAt c dx dy), hnodup.filter _, List.filter_map⟩

theorem InFormation.map_drop {aliens : List Alien} (h : InFormation c aliens) :
    InFormation c (aliens.map Alien.drop) := by
  obtain ⟨dx, dy, cells, hnodup, rfl⟩ := h
  refine ⟨dx, dy + alienDropSpeed, cells, hnodup, ?_⟩
  rw [List.map_map]
  refine List.map_congr_left fun cell _ => ?_
  simp only [Function.comp_apply, Alien.drop, alienAt, add_assoc]

theorem InFormation.map_update {aliens : List Alien} (h : InFormation c aliens) (speed : ℚ) :
    InFormation c (aliens.map (Alien.update speed)) := by
  obtain ⟨dx, dy, cells, hnodup, rfl⟩ := h
  refine ⟨dx + speed, dy, cells, hnodup, ?_⟩
  rw [List.map_map]
  refine List.map_congr_left fun cell _ => ?_
  simp only [Function.comp_apply, Alien.update, alienAt, add_right_comm]

theorem InFormation.groupcollide {bullets : List Bullet} {aliens : List Alien}
    (h : InFormation c aliens) : InFormation c (groupcollide bullets aliens).2 := by
  induction bullets generalizing aliens with
  | nil => exact h
  | cons b bullets ih =>
    rw [AlienInvasion.groupcollide]
    split
    · exact ih (h.filter _)
    · exact ih h

/-- **Every step keeps the formation.**  A new fleet only comes where the last one is gone. -/
theorem InFormation.step (hs : InFormation c s.aliens) (h : Effect c s a t) :
    InFormation c t.aliens := by
  cases h with
  | idle _ _ _ hidle => exact hidle.aliens ▸ hs
  | play | cleared | charged => exact inFormation_fleet c _ _
  | shot => exact hs.groupcollide
  | turned => exact hs.map_drop.map_update _
  | ahead => exact hs.map_update _
  | fullScreen | frame | ship | lost | missed | screen => exact hs

theorem InFormation.of_reachable (h : (machine c).Reachable s) : InFormation c s.aliens :=
  h.invariant (I := fun s => InFormation c s.aliens)
    (fun _ hinit => hinit ▸ inFormation_fleet c _ _)
    fun _ _ _ hs hst => hs.step (effect_of_step hst)

/-! ## Gaps -/

/-- Between two columns of the shifted grid there is the width of an alien less one. -/
theorem right_alienAt_le (dx : ℚ) (dy : ℤ) {p q : ℕ × ℕ} (h : p.1 < q.1) :
    (alienAt c dx dy p).rect.right + (c.alien.w - 1) ≤ (alienAt c dx dy q).rect.left := by
  have hpos := c.alien.w_pos
  have hcol : (p.1 : ℤ) + 1 ≤ q.1 := by exact_mod_cast h
  have hgap : 2 * c.alien.w ≤ 2 * c.alien.w * ((q.1 : ℤ) - p.1) := by nlinarith
  have htrunc := trunc_add_le (dx + (c.alien.w + 2 * c.alien.w * p.1 : ℤ))
    (n := 2 * c.alien.w * ((q.1 : ℤ) - p.1)) (by omega)
  have hsum : dx + (c.alien.w + 2 * c.alien.w * p.1 : ℤ) +
      (2 * c.alien.w * ((q.1 : ℤ) - p.1) : ℤ) = dx + (c.alien.w + 2 * c.alien.w * q.1 : ℤ) := by
    push_cast
    ring
  rw [hsum] at htrunc
  show trunc (dx + (c.alien.w + 2 * c.alien.w * p.1 : ℤ)) + c.alien.w + (c.alien.w - 1) ≤
    trunc (dx + (c.alien.w + 2 * c.alien.w * q.1 : ℤ))
  omega

/-- Between two rows there is the height of an alien. -/
theorem bottom_alienAt_le (dx : ℚ) (dy : ℤ) {p q : ℕ × ℕ} (h : p.2 < q.2) :
    (alienAt c dx dy p).rect.bottom + c.alien.h ≤ (alienAt c dx dy q).rect.top := by
  have hpos := c.alien.h_pos
  have hrow : (p.2 : ℤ) + 1 ≤ q.2 := by exact_mod_cast h
  show c.alien.h + 2 * c.alien.h * p.2 + dy + c.alien.h + c.alien.h ≤
    c.alien.h + 2 * c.alien.h * q.2 + dy
  nlinarith

/-- Two aliens of the shifted grid have the gap of two columns or that of two rows. -/
theorem gap_of_ne (c : Config) (dx : ℚ) (dy : ℤ) {p q : ℕ × ℕ} (h : p ≠ q) :
    (alienAt c dx dy p).rect.right + (c.alien.w - 1) ≤ (alienAt c dx dy q).rect.left ∨
      (alienAt c dx dy q).rect.right + (c.alien.w - 1) ≤ (alienAt c dx dy p).rect.left ∨
      (alienAt c dx dy p).rect.bottom + c.alien.h ≤ (alienAt c dx dy q).rect.top ∨
      (alienAt c dx dy q).rect.bottom + c.alien.h ≤ (alienAt c dx dy p).rect.top := by
  have hlt : p.1 < q.1 ∨ q.1 < p.1 ∨ p.2 < q.2 ∨ q.2 < p.2 := by
    rw [Ne, Prod.ext_iff] at h
    omega
  exact hlt.imp (right_alienAt_le dx dy) <| .imp (right_alienAt_le dx dy) <|
    .imp (bottom_alienAt_le dx dy) (bottom_alienAt_le dx dy)

theorem InFormation.pairwise_apart {aliens : List Alien} (h : InFormation c aliens) :
    aliens.Pairwise fun a b => ¬ a.rect.colliderect b.rect := by
  have hw := c.alien.w_pos
  have hh := c.alien.h_pos
  obtain ⟨dx, dy, cells, hnodup, rfl⟩ := h
  rw [List.pairwise_map]
  refine hnodup.imp fun {p q} hne => ?_
  rintro ⟨hleft, hright, htop, hbottom⟩
  rcases gap_of_ne c dx dy hne with hgap | hgap | hgap | hgap <;> omega

/-- **A rectangle that is not larger than the gaps meets at most one alien of a formation.** -/
theorem InFormation.pairwise_not_meet {aliens : List Alien} (h : InFormation c aliens) {r : Rect}
    (hw : r.w ≤ c.alien.w) (hh : r.h ≤ c.alien.h + 1) :
    aliens.Pairwise fun a b => ¬ (r.colliderect a.rect ∧ r.colliderect b.rect) := by
  obtain ⟨dx, dy, cells, hnodup, rfl⟩ := h
  rw [List.pairwise_map]
  refine hnodup.imp fun {p q} hne => ?_
  rintro ⟨⟨hpl, hpr, hpt, hpb⟩, hql, hqr, hqt, hqb⟩
  have hright : r.right = r.left + r.w := rfl
  have hbottom : r.bottom = r.top + r.h := rfl
  rcases gap_of_ne c dx dy hne with hgap | hgap | hgap | hgap <;> omega

/-- **No two aliens ever share a place.**  In every reachable state the aliens are what is left of
one grid that was shifted as a whole, and their rectangles are apart. -/
theorem aliens_apart (c : Config) (h : (machine c).Reachable s) :
    InFormation c s.aliens ∧ s.aliens.Pairwise fun a b => ¬ a.rect.colliderect b.rect :=
  ⟨.of_reachable h, (InFormation.of_reachable h).pairwise_apart⟩

/-- Two bullets are fired; in the tenth frame the fleet turns, and in the eleventh it loses an
alien. -/
theorem aliens_apart_game :
    ∃ s, (machine twoRows).run (initial twoRows) (played (10, 50) [.space, .space] 79) = some s ∧
      (s.hist.turns.count true = 1 ∧ (initial twoRows).aliens.length = 4 ∧ s.aliens.length = 3) ∧
      InFormation twoRows s.aliens ∧
        s.aliens.Pairwise fun a b => ¬ a.rect.colliderect b.rect := by
  obtain ⟨s, hrun, hreach, hs⟩ := Machine.Reachable.exists_of_run (M := machine twoRows) rfl
    (played (10, 50) [.space, .space] 79)
    (p := fun s => s.hist.turns.count true = 1 ∧ (initial twoRows).aliens.length = 4 ∧
      s.aliens.length = 3)
    (by decide +kernel)
  exact ⟨s, hrun, of_decide_eq_true hs, aliens_apart twoRows hreach⟩

/-! ## Bullets -/

/-- The bullets are no more than are allowed, and all have the size of a bullet. -/
def Armed (s : State) : Prop :=
  s.bullets.length ≤ bulletAllowed ∧
    ∀ b ∈ s.bullets, b.rect.w = bulletWidth ∧ b.rect.h = bulletHeigh

theorem Armed.of_eq (hs : Armed s) (h : t.bullets = s.bullets) : Armed t := by
  unfold Armed
  rwa [h]

theorem Armed.of_nil (h : t.bullets = []) : Armed t := by
  unfold Armed
  rw [h]
  exact ⟨Nat.zero_le _, fun _ hb => absurd hb List.not_mem_nil⟩

theorem Armed.fireBullet (hs : Armed s) : Armed (fireBullet s) := by
  unfold AlienInvasion.fireBullet
  split
  case isTrue hlt =>
    constructor
    · show (s.bullets ++ [Bullet.new s.ship]).length ≤ bulletAllowed
      rw [List.length_append, List.length_singleton]
      exact hlt
    · intro b hb
      rcases List.mem_append.mp hb with hold | hnew
      · exact hs.2 b hold
      · rw [List.mem_singleton.mp hnew]
        exact ⟨rfl, rfl⟩
  case isFalse => exact hs

theorem Armed.checkEvent (hs : Armed s) (e : Event) : Armed (checkEvent c e s) := by
  rcases e with _ | key | key | pos | _
  · exact hs.of_eq rfl
  · cases key with
    | space => exact hs.fireBullet
    | right | left | q | f | other => exact hs.of_eq rfl
  · cases key <;> exact hs.of_eq rfl
  · rw [AlienInvasion.checkEvent, checkPlayButton]
    split
    · exact .of_nil rfl
    · exact hs
  · exact hs.of_eq rfl

theorem sublist_groupcollide (bullets : List Bullet) (aliens : List Alien) :
    (groupcollide bullets aliens).1.Sublist bullets := by
  induction bullets generalizing aliens with
  | nil => exact List.Sublist.slnil
  | cons b bullets ih =>
    rw [groupcollide]
    split
    · exact (ih _).cons b
    · exact (ih _).cons_cons b

theorem Armed.moved (hs : Armed s) : (movedBullets s).length ≤ bulletAllowed ∧
    ∀ b ∈ movedBullets s, b.rect.w = bulletWidth ∧ b.rect.h = bulletHeigh := by
  constructor
  · refine (List.length_filter_le _ _).trans ?_
    rw [List.length_map]
    exact hs.1
  · intro b hb
    obtain ⟨b', hb', rfl⟩ := List.mem_map.mp (List.mem_of_mem_filter hb)
    exact hs.2 b' hb'

theorem Armed.step (hs : Armed s) (h : step c s a = some t) : Armed t := by
  cases a with
  | event e =>
    obtain ⟨-, heq⟩ := Option.ite_none_right_eq_some.mp h
    exact Option.some.inj heq ▸ hs.checkEvent e
  | go =>
    cases effect_of_runGame h with
    | shot =>
      have hsub := sublist_groupcollide (movedBullets s) s.aliens
      exact ⟨hsub.length_le.trans hs.moved.1, fun b hb => hs.moved.2 b (hsub.subset hb)⟩
    | cleared | charged => exact .of_nil rfl
    | frame | ship | turned | ahead | lost | missed | screen => exact hs.of_eq rfl

theorem Armed.of_reachable (h : (machine c).Reachable s) : Armed s :=
  h.invariant (fun _ hinit => hinit ▸ Armed.of_nil rfl) fun _ _ _ hs hst => hs.step hst

/-! ## Shots -/

/-- Of a list in which no two elements have a property, it takes at most one. -/
theorem countP_le_one {α : Type*} {p : α → Bool} {l : List α}
    (h : l.Pairwise fun x y => ¬ (p x = true ∧ p y = true)) : l.countP p ≤ 1 := by
  induction l with
  | nil => exact Nat.zero_le 1
  | cons x l ih =>
    obtain ⟨hx, hl⟩ := List.pairwise_cons.mp h
    by_cases hpx : p x = true
    · have hnone : l.countP p = 0 :=
        List.countP_eq_zero.mpr fun y hy hpy => hx y hy ⟨hpx, hpy⟩
      rw [List.countP_cons_of_pos hpx, hnone]
    · rw [List.countP_cons_of_neg hpx]
      exact ih hl

/-- If every bullet meets at most one alien, as many bullets as aliens are removed. -/
theorem length_groupcollide {bullets : List Bullet} {aliens : List Alien}
    (h : ∀ b ∈ bullets, aliens.countP (fun alien => b.rect.colliderect alien.rect) ≤ 1) :
    (groupcollide bullets aliens).1.length + aliens.length =
      bullets.length + (groupcollide bullets aliens).2.length := by
  induction bullets generalizing aliens with
  | nil => rfl
  | cons b bullets ih =>
    rw [groupcollide]
    split
    case isTrue hmeet =>
      have hone : aliens.countP (fun alien => b.rect.colliderect alien.rect) = 1 := by
        refine le_antisymm (h b List.mem_cons_self) (List.countP_pos_iff.mpr ?_)
        obtain ⟨alien, halien, hcollide⟩ := hmeet
        exact ⟨alien, halien, decide_eq_true hcollide⟩
      have hsplit := List.length_eq_countP_add_countP
        (fun alien : Alien => decide (b.rect.colliderect alien.rect)) (l := aliens)
      have hrest : ∀ b' ∈ bullets,
          (aliens.filter fun alien => ¬ b.rect.colliderect alien.rect).countP
            (fun alien => b'.rect.colliderect alien.rect) ≤ 1 := fun b' hb' =>
        List.filter_sublist.countP_le.trans (h b' (List.mem_cons_of_mem _ hb'))
      have hleft := ih hrest
      rw [← List.countP_eq_length_filter] at hleft
      simp only [decide_not, decide_eq_true_eq, List.length_cons] at hleft hsplit ⊢
      omega
    case isFalse =>
      have hrest := ih fun b' hb' => h b' (List.mem_cons_of_mem _ hb')
      simp only [List.length_cons]
      omega

/-- **One alien a bullet.**  There are never more bullets than are allowed, and a frame takes away
as many bullets as aliens, where aliens have at least a bullet's width and its height less one. -/
theorem one_alien_a_bullet (c : Config) (hw : bulletWidth ≤ c.alien.w)
    (hh : bulletHeigh ≤ c.alien.h + 1) (h : (machine c).Reachable s) :
    s.bullets.length ≤ bulletAllowed ∧
      (collisions s).1.length + s.aliens.length =
        (movedBullets s).length + (collisions s).2.length := by
  have harmed := Armed.of_reachable h
  refine ⟨harmed.1, length_groupcollide fun b hb => countP_le_one ?_⟩
  obtain ⟨hbw, hbh⟩ := harmed.moved.2 b hb
  refine ((InFormation.of_reachable h).pairwise_not_meet (hbw ▸ hw) (hbh ▸ hh)).imp ?_
  intro x y hnot hxy
  exact hnot ⟨of_decide_eq_true hxy.1, of_decide_eq_true hxy.2⟩

/-- Of two bullets one hits and takes one of four aliens. -/
theorem one_alien_a_bullet_game :
    ∃ s, (machine twoRows).run (initial twoRows) (played (10, 50) [.space, .space] 72) = some s ∧
      ((movedBullets s).length = 2 ∧ s.aliens.length = 4 ∧ (collisions s).2.length = 3) ∧
      s.bullets.length ≤ bulletAllowed ∧
      (collisions s).1.length + s.aliens.length =
        (movedBullets s).length + (collisions s).2.length := by
  obtain ⟨s, hrun, hreach, hs⟩ := Machine.Reachable.exists_of_run (M := machine twoRows) rfl
    (played (10, 50) [.space, .space] 72)
    (p := fun s => (movedBullets s).length = 2 ∧ s.aliens.length = 4 ∧
      (collisions s).2.length = 3)
    (by decide +kernel)
  exact ⟨s, hrun, of_decide_eq_true hs,
    one_alien_a_bullet twoRows (by decide) (by decide) hreach⟩

end AlienInvasion
end CodeStrudy
