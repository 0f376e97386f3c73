import WineGlass.Gdi.BlitRuns

/-!
# What a blit draws

Between two pixels the target is as the blit leaves it before a place and as it was from there
on, as long as every pixel's neighbour is read before it changes.
-/

namespace WineGlass.Gdi

open Faults Grids

variable {tw th : Nat} {r : Rects} {src : Source} {dst : Pixels tw th}

/-- The pixels before `x0`, `y0` are drawn. -/
structure Mid (r : Rects) (src : Source) (dst : Pixels tw th) (x0 y0 : Int) (s : Pixels tw th) :
    Prop where
  drawn : ∀ x y, r.Hits src tw th x y → Before x y x0 y0 →
    ∃ a d, src.seen dst (r.col (x - r.dx)) (r.row (y - r.dy)) = some a ∧ look dst x y = some d ∧
      look s x y = some (drawOver a d)
  left : ∀ x y, ¬ (r.Hits src tw th x y ∧ Before x y x0 y0) → look s x y = look dst x y

theorem Mid.start : Mid r src dst r.dx r.dy dst where
  drawn x y hhit hbefore := by
    have hx := hhit.column
    have hy := hhit.line
    unfold Before at hbefore
    omega
  left _ _ _ := rfl

/-- Places with the same hits before them. -/
theorem Mid.to (h : Mid r src dst x0 y0 s)
    (hsame : ∀ x y, r.Hits src tw th x y → (Before x y x1 y1 ↔ Before x y x0 y0)) :
    Mid r src dst x1 y1 s where
  drawn x y hhit hbefore := h.drawn x y hhit ((hsame x y hhit).mp hbefore)
  left x y hnot := h.left x y fun ⟨hhit, hbefore⟩ => hnot ⟨hhit, (hsame x y hhit).mpr hbefore⟩

-- ---------------------------------------------------------------------------
-- From place to place
-- ---------------------------------------------------------------------------

theorem before_pixel (x y : Int) (j i : Nat) : Before x y (r.dx + (i + 1 : Nat)) (r.dy + j) ↔
    Before x y (r.dx + i) (r.dy + j) ∨ x = r.dx + i ∧ y = r.dy + j := by
  unfold Before
  omega

theorem not_before (x y : Int) : ¬ Before x y x y := by
  unfold Before
  omega

theorem before_next {j : Nat} (hhit : r.Hits src tw th x y) :
    Before x y (r.dx + (0 : Nat)) (r.dy + (j + 1 : Nat)) ↔
      Before x y (r.dx + r.dw.toNat) (r.dy + j) := by
  have hx := hhit.column
  unfold Before
  omega

theorem before_skip {j : Nat} (hrow : ¬ RowHit r src th j) (hhit : r.Hits src tw th x y) :
    Before x y (r.dx + (0 : Nat)) (r.dy + (j + 1 : Nat)) ↔
      Before x y (r.dx + (0 : Nat)) (r.dy + j) := by
  have hx := hhit.column
  have hy : y ≠ r.dy + j := by
    rintro rfl
    obtain ⟨-, -, hlo, hhi⟩ := hhit.target
    obtain ⟨-, -, hrlo, hrhi⟩ := hhit.source
    rw [add_sub_cancel_left] at hrlo hrhi
    exact hrow ⟨hlo, hhi, hrlo, hrhi⟩
  unfold Before
  omega

theorem before_end (hhit : r.Hits src tw th x y) :
    Before x y (r.dx + (0 : Nat)) (r.dy + r.dh.toNat) := by
  have hy := hhit.line
  unfold Before
  omega

theorem Mid.pixel {i j : Nat} (h : Mid r src dst (r.dx + i) (r.dy + j) s)
    (hdrew : Drew r src j i s s')
    (hsee : r.Hits src tw th (r.dx + i) (r.dy + j) →
      src.seen s (r.col i) (r.row j) = src.seen dst (r.col i) (r.row j)) :
    Mid r src dst (r.dx + (i + 1 : Nat)) (r.dy + j) s' := by
  by_cases hhit : r.Hits src tw th (r.dx + i) (r.dy + j)
  · obtain ⟨a, ha, ⟨d, hd, hover⟩, hrest⟩ := hdrew.hit hhit
    constructor
    · intro x y hxy hbefore
      by_cases hc : x = r.dx + i ∧ y = r.dy + j
      · obtain ⟨rfl, rfl⟩ := hc
        rw [h.left _ _ fun hb => not_before _ _ hb.2] at hd
        rw [hsee hhit] at ha
        rw [add_sub_cancel_left, add_sub_cancel_left]
        exact ⟨a, d, ha, hd, hover⟩
      · rw [hrest x y hc]
        exact h.drawn x y hxy (((before_pixel x y j i).mp hbefore).resolve_right hc)
    · intro x y hnot
      have hc : ¬ (x = r.dx + i ∧ y = r.dy + j) := by
        rintro ⟨rfl, rfl⟩
        exact hnot ⟨hhit, (before_pixel _ _ j i).mpr (.inr ⟨rfl, rfl⟩)⟩
      rw [hrest x y hc]
      exact h.left x y fun ⟨hxy, hb⟩ => hnot ⟨hxy, (before_pixel x y j i).mpr (.inl hb)⟩
  · rw [hdrew.miss hhit]
    refine h.to fun x y hxy => (before_pixel x y j i).trans (or_iff_left ?_)
    rintro ⟨rfl, rfl⟩
    exact hhit hxy

theorem Mid.next {j : Nat} (h : Mid r src dst (r.dx + r.dw.toNat) (r.dy + j) s) :
    Mid r src dst (r.dx + (0 : Nat)) (r.dy + (j + 1 : Nat)) s := h.to fun _ _ => before_next

theorem Mid.skip {j : Nat} (h : Mid r src dst (r.dx + (0 : Nat)) (r.dy + j) s)
    (hrow : ¬ RowHit r src th j) :
    Mid r src dst (r.dx + (0 : Nat)) (r.dy + (j + 1 : Nat)) s := h.to fun _ _ => before_skip hrow

theorem Mid.blitted (h : Mid r src dst (r.dx + (0 : Nat)) (r.dy + r.dh.toNat) out) :
    Blitted r src dst out := by
  intro x y
  refine ⟨fun hhit => ?_, fun hhit => h.left x y fun hb => hhit hb.1⟩
  obtain ⟨a, d, ha, hd, hover⟩ := h.drawn x y hhit (before_end hhit)
  exact ⟨a, d, drawOver a d, ha, hd, hover, over_composite a d⟩

/-- In a blit that does not scale, the nearest neighbour is the pixel itself. -/
theorem Blitted.readsBack (h : Blitted r src dst out) : ReadsBack r src dst out := by
  intro hw hh i j s hhit hs hopaque
  have hpos := Rects.pos hhit.some_
  obtain ⟨a, d, p, ha, -, hp, hcomp⟩ := (h _ _).1 hhit
  rw [add_sub_cancel_left, add_sub_cancel_left, Rects.col, Rects.row, hw, hh,
    Int.mul_ediv_cancel _ (Int.ne_of_gt hpos.1), Int.mul_ediv_cancel _ (Int.ne_of_gt hpos.2.1),
    hs] at ha
  cases ha
  rw [hp, hcomp.opaque_ hopaque]

theorem blitted_empty (hempty : r.Empty) : Blitted r src dst dst :=
  fun _ _ => ⟨fun hhit => absurd hempty hhit.some_, fun _ => rfl⟩

/-- The neighbour of a pixel is as it was before the blit, in another buffer or if it is calm. -/
theorem Mid.sees {i j : Nat} (h : Mid r src dst (r.dx + i) (r.dy + j) s)
    (hcalm : src = .own → r.CalmAt tw th (r.dx + i) (r.dy + j)) :
    src.seen s (r.col i) (r.row j) = src.seen dst (r.col i) (r.row j) := by
  cases src with
  | image w h px => rfl
  | own =>
    refine h.left _ _ fun ⟨hhit, hb⟩ => hcalm rfl _ _ hhit hb ?_
    rw [add_sub_cancel_left, add_sub_cancel_left]
    exact ⟨rfl, rfl⟩

theorem blits_of (hroom : r.Room src tw th)
    (hcalm : src = .own → ∀ x y, r.Hits .own tw th x y → r.CalmAt tw th x y) :
    Blits r src dst := by
  obtain ⟨out, hout⟩ := ends_blitPixels.mpr hroom
  have hblitted : Blitted r src dst out := by
    by_cases hempty : r.Empty
    · rw [blitPixels_empty hempty] at hout
      cases hout
      exact blitted_empty hempty
    · refine (blit_rule (I := fun j i s => Mid r src dst (r.dx + i) (r.dy + j) s) hempty hout
        ?_ ?_ ?_ ?_).blitted
      · simpa using Mid.start
      · intro j i s s' hj hi hrow hmid hdrew
        refine hmid.pixel hdrew fun hhit => hmid.sees fun hown => ?_
        subst hown
        exact hcalm rfl _ _ hhit
      · exact fun _ hrow hmid => hmid.skip hrow
      · exact fun _ hmid => hmid.next
  exact ⟨out, hout, hblitted, hblitted.readsBack⟩

-- ---------------------------------------------------------------------------
-- Within one buffer
-- ---------------------------------------------------------------------------

/-- When everything before a pixel was calm, the pixel is drawn over what it was with what its
neighbour is by then. -/
theorem drawn_at (hout : blitPixels r .own dst = .ok out) (hhit : r.Hits .own tw th x y)
    (hearlier : ∀ x' y', r.Hits .own tw th x' y' → Before x' y' x y → r.CalmAt tw th x' y') :
    ∃ s a d, Mid r .own dst x y s ∧ look s (r.col (x - r.dx)) (r.row (y - r.dy)) = some a ∧
      look s x y = some d ∧ look out x y = some (drawOver a d) := by
  let Done (p : Pixels tw th) : Prop := ∃ s a d, Mid r .own dst x y s ∧
    look s (r.col (x - r.dx)) (r.row (y - r.dy)) = some a ∧ look s x y = some d ∧
      look p x y = some (drawOver a d)
  let I (j i : Nat) (p : Pixels tw th) : Prop :=
    (¬ Before x y (r.dx + i) (r.dy + j) → Mid r .own dst (r.dx + i) (r.dy + j) p) ∧
      (Before x y (r.dx + i) (r.dy + j) → Done p)
  have hrun : I r.dh.toNat 0 out := by
    refine blit_rule hhit.some_ hout ?_ ?_ ?_ ?_
    · refine ⟨fun _ => by simpa using Mid.start, fun hb => ?_⟩
      have hx := hhit.column
      have hy := hhit.line
      unfold Before at hb
      omega
    · rintro j i s s' hj hi hrow ⟨hmid, hdone⟩ hdrew
      by_cases hb : Before x y (r.dx + i) (r.dy + j)
      · -- drawn already, and not changed again
        refine ⟨fun hnb => absurd ((before_pixel x y j i).mpr (.inl hb)) hnb, fun _ => ?_⟩
        obtain ⟨m, a, d, hm, ha, hd, hover⟩ := hdone hb
        refine ⟨m, a, d, hm, ha, hd, ?_⟩
        by_cases hc : r.Hits .own tw th (r.dx + i) (r.dy + j)
        · obtain ⟨_, _, -, hrest⟩ := hdrew.hit hc
          rw [hrest x y]
          · exact hover
          · rintro ⟨rfl, rfl⟩
            exact not_before _ _ hb
        · rw [hdrew.miss hc]
          exact hover
      · by_cases hc : x = r.dx + i ∧ y = r.dy + j
        · -- drawn now
          obtain ⟨rfl, rfl⟩ := hc
          refine ⟨fun hnb => absurd ((before_pixel _ _ j i).mpr (.inr ⟨rfl, rfl⟩)) hnb, fun _ => ?_⟩
          obtain ⟨a, ha, ⟨d, hd, hover⟩, -⟩ := hdrew.hit hhit
          rw [← add_sub_cancel_left r.dx (i : Int), ← add_sub_cancel_left r.dy (j : Int)] at ha
          exact ⟨s, a, d, hmid hb, ha, hd, hover⟩
        · refine ⟨fun _ => (hmid hb).pixel hdrew fun hc => (hmid hb).sees fun _ => ?_, fun hb' => ?_⟩
          · refine hearlier _ _ hc ?_
            unfold Before at hb ⊢
            omega
          · exact absurd ((before_pixel x y j i).mp hb') (not_or.mpr ⟨hb, hc⟩)
    · rintro j s - hrow ⟨hmid, hdone⟩
      exact ⟨fun hnb => (hmid fun hb => hnb ((before_skip hrow hhit).mpr hb)).skip hrow,
        fun hb => hdone ((before_skip hrow hhit).mp hb)⟩
    · rintro j s - ⟨hmid, hdone⟩
      exact ⟨fun hnb => (hmid fun hb => hnb ((before_next hhit).mpr hb)).next,
        fun hb => hdone ((before_next hhit).mp hb)⟩
  exact hrun.2 (before_end hhit)

/-- A pixel whose neighbour was drawn before is drawn with what the neighbour has become. -/
theorem drawn_twice (h : Blits r .own dst) (hhit : r.Hits .own tw th x y)
    (hearlier : ∀ x' y', r.Hits .own tw th x' y' → Before x' y' x y → r.CalmAt tw th x' y')
    (hwritten : r.Hits .own tw th x₁ y₁) (hbefore : Before x₁ y₁ x y)
    (hx : x₁ = r.col (x - r.dx)) (hy : y₁ = r.row (y - r.dy)) :
    ∃ a b d, look dst (r.col (x₁ - r.dx)) (r.row (y₁ - r.dy)) = some a ∧ look dst x₁ y₁ = some b ∧
      look dst x y = some d ∧ Composite b d (drawOver (drawOver a b) d) := by
  obtain ⟨out, hout, hblitted, -⟩ := h
  obtain ⟨s, c, d, hmid, hc, hd, hover⟩ := drawn_at hout hhit hearlier
  obtain ⟨a, b, ha, hb, hab⟩ := hmid.drawn x₁ y₁ hwritten hbefore
  rw [hmid.left x y fun hb => not_before x y hb.2] at hd
  rw [← hx, ← hy, hab] at hc
  cases hc
  obtain ⟨b', d', p, hb', hd', hp, hcomp⟩ := (hblitted x y).1 hhit
  have hbb : look dst x₁ y₁ = some b' := by
    rw [hx, hy]
    exact hb'
  rw [hb] at hbb
  rw [hd] at hd'
  rw [hover] at hp
  cases hbb
  cases hd'
  cases hp
  exact ⟨a, b, d, ha, hb, hd, hcomp⟩

/-- One pixel on a plain ground. -/
def spotted (hi : i < tw) (hj : j < th) (p q : U32) : Pixels tw th :=
  (Vector.replicate (tw * th) q).set (cell tw i j) p (cell_lt hi hj)

theorem look_plain (q : U32) (hin : Inside tw th x y) :
    look (Vector.replicate (tw * th) q : Pixels tw th) x y = some q := by
  obtain ⟨i, j, rfl, rfl, hi, hj⟩ := hin.nat
  rw [look_nat hi hj, Vector.getElem?_replicate, if_pos (cell_lt hi hj)]

theorem look_spotted {i j : Nat} (hi : i < tw) (hj : j < th) (p q : U32) (hin : Inside tw th x y) :
    look (spotted hi hj p q) x y = if x = i ∧ y = j then some p else some q := by
  unfold spotted
  rw [look_set hi hj, look_plain q hin]

theorem calmAt_of (h : ∀ dst : Pixels tw th, Blits r .own dst) (hhit : r.Hits .own tw th x y)
    (hearlier : ∀ x' y', r.Hits .own tw th x' y' → Before x' y' x y → r.CalmAt tw th x' y') :
    r.CalmAt tw th x y := by
  rintro x₁ y₁ hwritten hbefore ⟨hx, hy⟩
  have hother : ¬ (x = x₁ ∧ y = y₁) := by
    rintro ⟨rfl, rfl⟩
    exact not_before _ _ hbefore
  obtain ⟨i, j, hi', hj', hi, hj⟩ := hwritten.target.nat
  by_cases hself : r.col (x₁ - r.dx) = x₁ ∧ r.row (y₁ - r.dy) = y₁
  · -- a pixel drawn over itself becomes opaque
    obtain ⟨a, b, d, ha, hb, hd, hcomp⟩ := drawn_twice
      (h (spotted hi hj 0x80FFFFFF#32 0xFF000000#32)) hhit hearlier hwritten hbefore hx hy
    rw [look_spotted hi hj _ _ hwritten.source, hself.1, hself.2, if_pos ⟨hi', hj'⟩] at ha
    rw [look_spotted hi hj _ _ hwritten.target, if_pos ⟨hi', hj'⟩] at hb
    rw [look_spotted hi hj _ _ hhit.target, if_neg (by rwa [← hi', ← hj'])] at hd
    cases ha
    cases hb
    cases hd
    have hred := (hcomp.blend (by decide) (by decide)).2 0 (by decide)
    revert hred
    decide +kernel
  · -- the neighbour's colour is gone
    obtain ⟨a, b, d, ha, hb, hd, hcomp⟩ := drawn_twice
      (h (spotted hi hj 0xFF000000#32 0xFFFFFFFF#32)) hhit hearlier hwritten hbefore hx hy
    rw [look_spotted hi hj _ _ hwritten.source, if_neg (by rwa [← hi', ← hj'])] at ha
    rw [look_spotted hi hj _ _ hwritten.target, if_pos ⟨hi', hj'⟩] at hb
    rw [look_spotted hi hj _ _ hhit.target, if_neg (by rwa [← hi', ← hj'])] at hd
    cases ha
    cases hb
    cases hd
    have hblack := hcomp.opaque_ (by decide)
    revert hblack
    decide +kernel

/-- Along the order in which pixels are drawn. -/
theorem calm_of (h : ∀ dst : Pixels tw th, Blits r .own dst) : r.Calm tw th := by
  have hall (m : Nat) : ∀ n x y, (y - r.dy).toNat = m → (x - r.dx).toNat = n →
      r.Hits .own tw th x y → r.CalmAt tw th x y := by
    induction m using Nat.strong_induction_on with
    | _ m ihm =>
      intro n
      induction n using Nat.strong_induction_on with
      | _ n ihn =>
        rintro x y rfl rfl hhit
        refine calmAt_of h hhit fun x' y' hhit' hb => ?_
        have hx' := hhit'.column
        have hy' := hhit'.line
        rcases hb with hlt | ⟨rfl, hlt⟩
        · exact ihm _ (by omega) _ x' y' rfl rfl hhit'
        · exact ihn _ (by omega) x' y' rfl rfl hhit'
  exact fun x y hhit => hall _ _ x y rfl rfl hhit

/-- Into another buffer a blit draws what it should whenever its coordinates fit, whatever the
pixels are; within one buffer, when it is calm besides. -/
theorem blit_law (r : Rects) (tw th : Nat) :
    (∀ (w h : Nat) (px : Pixels w h) (dst : Pixels tw th),
      Blits r (.image w h px) dst ↔ r.Room (.image w h px) tw th) ∧
    ((∀ dst : Pixels tw th, Blits r .own dst) ↔ r.Room .own tw th ∧ r.Calm tw th) := by
  have hroom (src : Source) (dst : Pixels tw th) (h : Blits r src dst) : r.Room src tw th := by
    obtain ⟨out, hout, -⟩ := h
    exact ends_blitPixels.mp ⟨out, hout⟩
  refine ⟨fun w h px dst => ⟨hroom _ dst, fun hr => blits_of hr fun hown => (by cases hown)⟩, ?_⟩
  refine ⟨fun h => ⟨hroom _ (Vector.replicate _ 0#32) (h _), calm_of h⟩, ?_⟩
  rintro ⟨hr, hcalm⟩ dst
  exact blits_of hr fun _ => hcalm

/-- Three rows out of a source of nearly `2 ^ 31`. -/
def huge : Rects := ⟨0, 0, 3, 3, 0, 0, 2147483647, 2147483647, by decide⟩

/-- A row of pixels moves one to the right. -/
def scroll : Rects := ⟨1, 0, 2, 1, 0, 0, 2, 1, by decide⟩

def clearPixels : Pixels 3 3 := Vector.replicate 9 0#32

def threePixels : Pixels 3 1 := #v[0xFF000000#32, 0xFFFFFFFF#32, 0xFFFFFFFF#32]

/-- The third row's product overflows, and a scroll repeats its first pixel. -/
theorem blit_wrong :
    ¬ Blits huge (.image 3 1 threePixels) clearPixels ∧
      ¬ Blits scroll .own threePixels := by
  constructor
  · rintro ⟨out, h, -⟩
    have hroom := (ends_blitPixels.mp ⟨out, h⟩ (by simp [Rects.Empty, huge])).1
    simp [AxisFits, huge] at hroom
  · rintro ⟨out, h, hblitted, -⟩
    have hrun : blitPixels scroll .own threePixels =
        .ok #v[0xFF000000#32, 0xFF000000#32, 0xFF000000#32] := by decide +kernel
    rw [hrun] at h
    cases h
    obtain ⟨s, d, p, hs, -, hp, hcomp⟩ := (hblitted 2 0).1
      ⟨by simp [Rects.Empty, scroll], by decide, by decide, by decide, by decide⟩
    have hwhite : s = 0xFFFFFFFF#32 := Option.some.inj (hs.symm.trans (by decide +kernel))
    have hblack : p = 0xFF000000#32 := Option.some.inj (hp.symm.trans (by decide +kernel))
    subst hwhite hblack
    exact absurd (hcomp.opaque_ (by decide)) (by decide)

end WineGlass.Gdi
