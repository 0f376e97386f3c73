import WineGlass.Gdi.Targets

/-!
# Draws stay on their targets

In a run whose steps are all `Proper`, the code finds for every handle the context that the
history of the calls gave it, and every draw keeps to its `Frame`. A slot that `GetDC` fills
keeps what it does not set, and a window context then draws on a bitmap.
-/

namespace WineGlass.Gdi

open Faults Grids Tables Runs

variable {room : Nat → Bool} {g g₁ g' : Desktop} {hdc hwnd : U32} {fill : Dc → Dc}

-- ---------------------------------------------------------------------------
-- Windows
-- ---------------------------------------------------------------------------

theorem frame_memory (hmem : dc.isMemdc = true) :
    Frame g g' (some dc) ↔ Stamps g dc.selBitmap g' := by simp [Frame, hmem]

theorem frame_window (hmem : dc.isMemdc = false) :
    Frame g g' (some dc) ↔ Paints g dc.hwnd g' := by simp [Frame, hmem]

theorem Paints.refl (g : Desktop) (hwnd : U32) : Paints g hwnd g := by
  refine ⟨⟨Window.client, Window.clientDirty, ?_⟩, rfl⟩
  exact (revise_id fun _ => rfl).symm

theorem Paints.setWindow (client : Window → Option Client) (clientDirty : Window → Bool)
    (h : Paints g hwnd g₁) : Paints g hwnd (g₁.setWindow hwnd (repaint client clientDirty)) := by
  obtain ⟨⟨client₁, clientDirty₁, hw⟩, hb⟩ := h
  refine ⟨⟨fun w => client (repaint client₁ clientDirty₁ w),
    fun w => clientDirty (repaint client₁ clientDirty₁ w), ?_⟩, hb⟩
  unfold Desktop.setWindow at hw ⊢
  dsimp only at hw ⊢
  rw [hw]
  exact revise_revise fun _ h => h

theorem getClient_paints (h : g.getClient room hwnd = .ok (c, g₁)) :
    Paints g hwnd g₁ ∧ g₁.dcs = g.dcs := by
  unfold Desktop.getClient at h
  split at h
  · cases h
    exact ⟨.refl g hwnd, rfl⟩
  · split at h
    · cases h
      exact ⟨.refl g hwnd, rfl⟩
    · split at h
      · obtain ⟨c, -, h⟩ := bind_eq_ok.mp h
        cases h
        exact ⟨(Paints.refl g hwnd).setWindow (fun _ => some c) (fun _ => true), rfl⟩
      · cases h
        exact ⟨.refl g hwnd, rfl⟩

/-- A memory context has no window. -/
def Windowless (g : Desktop) (dc : Dc) : Prop := dc.isMemdc = true → g.wmFind dc.hwnd = none

theorem Paints.frame (h : Paints g dc.hwnd g') (hdc : Windowless g dc) : Frame g g' (some dc) := by
  cases hmem : dc.isMemdc with
  | true =>
    obtain ⟨⟨client, clientDirty, hw⟩, hb⟩ := h
    exact (frame_memory hmem).mpr ⟨hw.trans (revise_none (hdc hmem)), .inl hb⟩
  | false => exact (frame_window hmem).mpr h

theorem Frame.refl (g : Desktop) (r : Option Dc) : Frame g g r := by
  cases r with
  | none => exact ⟨rfl, rfl⟩
  | some dc =>
    cases hmem : dc.isMemdc with
    | true => exact (frame_memory hmem).mpr ⟨rfl, .inl rfl⟩
    | false => exact (frame_window hmem).mpr (.refl g dc.hwnd)

/-- A frame is about windows and bitmaps. -/
theorem Frame.of_eq (h : Frame g g' r) (hw : g₁.windows = g.windows)
    (hb : g₁.bitmaps = g.bitmaps) : Frame g₁ g' r := by
  cases r with
  | none => exact ⟨h.1.trans hw.symm, h.2.trans hb.symm⟩
  | some dc =>
    cases hmem : dc.isMemdc with
    | true =>
      obtain ⟨hw', hb'⟩ := (frame_memory hmem).mp h
      refine (frame_memory hmem).mpr ⟨hw'.trans hw.symm, ?_⟩
      unfold Desktop.findBitmap Desktop.setBitmap
      rwa [hb]
    | false =>
      obtain ⟨hw', hb'⟩ := (frame_window hmem).mp h
      refine (frame_window hmem).mpr ⟨?_, hb'.trans hb.symm⟩
      unfold Desktop.setWindow
      rwa [hw]

-- ---------------------------------------------------------------------------
-- Single draws
-- ---------------------------------------------------------------------------

theorem fillRect_frame (hwin : ∀ dc, g.findDc hdc = some dc → Windowless g dc)
    (h : g.fillRect room hdc l t r b cr = .ok g') :
    Frame g g' (g.findDc hdc) ∧ g'.dcs = g.dcs := by
  unfold Desktop.fillRect at h
  cases hfind : g.findDc hdc with
  | none =>
    rw [hfind] at h
    cases h
    exact ⟨.refl g none, rfl⟩
  | some dc =>
    rw [hfind] at h
    obtain ⟨⟨c, g₁⟩, hclient, h⟩ := bind_eq_ok.mp h
    obtain ⟨hpaints, hdcs⟩ := getClient_paints hclient
    cases c with
    | none =>
      cases h
      exact ⟨hpaints.frame (hwin dc hfind), hdcs⟩
    | some c =>
      obtain ⟨px, -, h⟩ := bind_eq_ok.mp h
      cases h
      exact ⟨(hpaints.setWindow (fun _ => some { c with px }) (fun _ => true)).frame
        (hwin dc hfind), hdcs⟩

theorem Line.loop_ne_nil {w h : Nat} {l : Line} {fb fb' : Pixels w h}
    (hloop : l.loop rgba fuel p fb = .ok (some (pts, fb'))) : pts ≠ [] := by
  cases fuel with
  | zero => cases hloop
  | succ fuel =>
    unfold Line.loop at hloop
    obtain ⟨fb₁, -, hloop⟩ := bind_eq_ok.mp hloop
    split at hloop
    · cases hloop
      exact List.cons_ne_nil _ _
    · obtain ⟨q, -, hloop⟩ := bind_eq_ok.mp hloop
      obtain ⟨r, -, hloop⟩ := bind_eq_ok.mp hloop
      cases r with
      | none => cases hloop
      | some r =>
        cases hloop
        exact List.cons_ne_nil _ _

/-- The pen moves when there was something to draw on. -/
theorem lineTo_frame (hwin : ∀ dc, g.findDc hdc = some dc → Windowless g dc)
    (h : g.lineTo room fuel hdc x y = .ok (some (pts, g'))) :
    Frame g g' (g.findDc hdc) ∧
      (pts = [] ∧ g'.dcs = g.dcs ∨ pts ≠ [] ∧ g'.dcs = (g.moveTo hdc x y).dcs) := by
  unfold Desktop.lineTo at h
  cases hfind : g.findDc hdc with
  | none =>
    rw [hfind] at h
    cases h
    exact ⟨.refl g none, .inl ⟨rfl, rfl⟩⟩
  | some dc =>
    rw [hfind] at h
    obtain ⟨⟨c, g₁⟩, hclient, h⟩ := bind_eq_ok.mp h
    obtain ⟨hpaints, hdcs⟩ := getClient_paints hclient
    cases c with
    | none =>
      cases h
      exact ⟨hpaints.frame (hwin dc hfind), .inl ⟨rfl, hdcs⟩⟩
    | some c =>
      obtain ⟨l, -, h⟩ := bind_eq_ok.mp h
      obtain ⟨r, hloop, h⟩ := bind_eq_ok.mp h
      cases r with
      | none => cases h
      | some r =>
        cases h
        have hdrawn := hpaints.setWindow (fun _ => some { c with px := r.2 }) (fun _ => true)
        refine ⟨Paints.frame ⟨hdrawn.windows, hdrawn.bitmaps⟩ (hwin dc hfind),
          .inr ⟨Line.loop_ne_nil hloop, ?_⟩⟩
        simp only [Desktop.paint, Desktop.setWindow, Desktop.moveTo, Desktop.setDc, hdcs]

theorem dcTarget_cases (h : g.dcTarget room hdc = .ok (target, g₁)) :
    target = none ∧ g₁ = g ∧ g.findDc hdc = none ∨ ∃ dc, g.findDc hdc = some dc ∧
      (dc.isMemdc = true ∧ g₁ = g ∧ target = (g.findBitmap dc.selBitmap).map (.bitmap dc.selBitmap) ∨
        dc.isMemdc = false ∧ ∃ c, g.getClient room dc.hwnd = .ok (c, g₁) ∧
          target = c.map (.window dc.hwnd)) := by
  unfold Desktop.dcTarget at h
  cases hfind : g.findDc hdc with
  | none =>
    rw [hfind] at h
    cases h
    exact .inl ⟨rfl, rfl, rfl⟩
  | some dc =>
    rw [hfind] at h
    refine .inr ⟨dc, rfl, ?_⟩
    cases hmem : dc.isMemdc with
    | true =>
      simp only [hmem, if_true] at h
      cases h
      exact .inl ⟨rfl, rfl, rfl⟩
    | false =>
      simp only [hmem, Bool.false_eq_true, if_false] at h
      obtain ⟨⟨c, g₂⟩, hclient, h⟩ := bind_eq_ok.mp h
      cases h
      exact .inr ⟨rfl, c, hclient, rfl⟩

theorem blitPixels_frame (hnull : g.findBitmap 0 = none)
    (h : g.blitPixels room hdc r hbitmap src = .ok g') :
    Frame g g' (g.findDc hdc) ∧ g'.dcs = g.dcs := by
  unfold Desktop.blitPixels at h
  by_cases hempty : r.Empty
  · rw [if_pos hempty] at h
    cases h
    exact ⟨.refl g _, rfl⟩
  rw [if_neg hempty] at h
  obtain ⟨⟨target, g₁⟩, htarget, hdraw⟩ := bind_eq_ok.mp h
  clear h
  rcases dcTarget_cases htarget with ⟨rfl, rfl, hfind⟩ | ⟨dc, hfind, htarget⟩
  · cases hdraw
    exact ⟨.refl _ _, rfl⟩
  rw [hfind]
  rcases htarget with ⟨hmem, rfl, rfl⟩ | ⟨hmem, c, hclient, rfl⟩
  · cases hb : g₁.findBitmap dc.selBitmap with
    | none =>
      rw [hb] at hdraw
      cases hdraw
      exact ⟨.refl _ _, rfl⟩
    | some b =>
      rw [hb] at hdraw
      obtain ⟨px, -, hdraw⟩ := bind_eq_ok.mp hdraw
      cases hdraw
      refine ⟨(frame_memory hmem).mpr ⟨rfl, .inr ⟨?_, b, hb, px, rfl⟩⟩, rfl⟩
      rintro hzero
      rw [hzero, hnull] at hb
      cases hb
  · obtain ⟨hpaints, hdcs⟩ := getClient_paints hclient
    have hwin : Windowless g dc := fun h => by simp [hmem] at h
    cases c with
    | none =>
      cases hdraw
      exact ⟨hpaints.frame hwin, hdcs⟩
    | some c =>
      obtain ⟨px, -, hdraw⟩ := bind_eq_ok.mp hdraw
      cases hdraw
      exact ⟨(hpaints.setWindow (fun _ => some { c with px })
        (fun w => w.clientDirty || dc.hwnd != 0)).frame hwin, hdcs⟩

theorem drawBitmap_frame (hnull : g.findBitmap 0 = none)
    (h : g.drawBitmap room hdc a hbitmap = .ok g') :
    Frame g g' (g.findDc hdc) ∧ g'.dcs = g.dcs := by
  unfold Desktop.drawBitmap at h
  split at h
  · cases h
    exact ⟨.refl g _, rfl⟩
  · exact blitPixels_frame hnull h

theorem blit_frame (hnull : g.findBitmap 0 = none) (h : g.blit room hdc a hdcSrc = .ok g') :
    Frame g g' (g.findDc hdc) ∧ g'.dcs = g.dcs := by
  unfold Desktop.blit at h
  dsimp only at h
  split at h
  · cases h
    exact ⟨.refl g _, rfl⟩
  · exact drawBitmap_frame hnull h

-- ---------------------------------------------------------------------------
-- Handles
-- ---------------------------------------------------------------------------

theorem Dc.is_iff {d : Dc} : Dc.is hdc d = true ↔ d.used = true ∧ d.handle = hdc := by
  simp [Dc.is]

theorem Dc.is_other {d : Dc} (h : d.handle ≠ hdc) : Dc.is hdc d = false := by simp [Dc.is, h]

/-- What a call may set of a context. -/
structure Keeps (f : Dc → Dc) : Prop where
  used : ∀ d, (f d).used = d.used
  handle : ∀ d, (f d).handle = d.handle
  isMemdc : ∀ d, (f d).isMemdc = d.isMemdc
  hwnd : ∀ d, (f d).hwnd = d.hwnd

theorem Keeps.is {f : Dc → Dc} (hf : Keeps f) (d : Dc) : Dc.is hdc (f d) = Dc.is hdc d := by
  simp [Dc.is, hf.used, hf.handle]

theorem Attribute.keeps (a : Attribute) : Keeps fun d => a.set d := by
  cases a <;> exact ⟨fun _ => rfl, fun _ => rfl, fun _ => rfl, fun _ => rfl⟩

theorem select_keeps (hbitmap : U32) : Keeps fun d => { d with selBitmap := hbitmap } :=
  ⟨fun _ => rfl, fun _ => rfl, fun _ => rfl, fun _ => rfl⟩

theorem findDc_change {f : Dc → Dc} (hf : Keeps f) :
    (g.setDc hdc f).findDc = Records.change g.findDc hdc f := by
  funext h
  unfold Records.change
  by_cases heq : h = hdc
  · subst heq
    rw [Function.update_self]
    cases hfind : g.findDc h with
    | none =>
      unfold Desktop.findDc Desktop.setDc
      rw [revise_none hfind]
      exact hfind
    | some d => exact find?_revise hfind ((hf.is d).trans (List.find?_some hfind))
  · rw [Function.update_of_ne heq]
    refine find?_revise_other fun d hd => ?_
    have hne : d.handle ≠ h := fun h' => heq (h'.symm.trans (Dc.is_iff.mp hd).2)
    exact ⟨Dc.is_other hne, (hf.is d).trans (Dc.is_other hne)⟩

theorem findDc_release (honce : Once (Dc.is hdc) g.dcs) :
    (g.releaseDc hdc).findDc = Function.update g.findDc hdc none := by
  funext h
  by_cases heq : h = hdc
  · subst heq
    rw [Function.update_self]
    exact honce.gone fun _ => rfl
  · rw [Function.update_of_ne heq]
    refine find?_revise_other fun d hd => ⟨Dc.is_other ?_, rfl⟩
    exact fun h' => heq (h'.symm.trans (Dc.is_iff.mp hd).2)

/-- The desktop when the first free slot is filled. -/
def Desktop.allot (g : Desktop) (fill : Dc → Dc) : Desktop :=
  { g with dcs := revise (fun d => !d.used) fill g.dcs, nextDc := g.nextDc + 1 }

/-- A slot filled for the next handle. -/
def Fills (g : Desktop) (fill : Dc → Dc) : Prop :=
  ∀ d, (fill d).used = true ∧ (fill d).handle = g.nextDc

theorem findDc_allot (hfree : g.freeDc = some d) (hnew : g.findDc g.nextDc = none)
    (hfill : Fills g fill) :
    (g.allot fill).findDc = Function.update g.findDc g.nextDc (some (fill d)) := by
  funext h
  by_cases heq : h = g.nextDc
  · subst heq
    rw [Function.update_self]
    exact find?_revise_new hfree hnew (Dc.is_iff.mpr (hfill d))
  · rw [Function.update_of_ne heq]
    refine find?_revise_other fun d hd => ⟨?_, Dc.is_other ?_⟩
    · simp only [Bool.not_eq_true'] at hd
      simp [Dc.is, hd]
    · rw [(hfill d).2]
      exact fun h' => heq h'.symm

theorem once_allot (hnew : g.findDc g.nextDc = none) (hfill : Fills g fill)
    (honce : ∀ h, Once (Dc.is h) g.dcs) (h : U32) : Once (Dc.is h) (g.allot fill).dcs := by
  by_cases heq : h = g.nextDc
  · subst heq
    exact Once.new hnew
  · refine (honce h).revise fun d _ hd => ?_
    exact absurd ((Dc.is_iff.mp hd).2.symm.trans (hfill d).2) heq

-- ---------------------------------------------------------------------------
-- Single steps
-- ---------------------------------------------------------------------------

/-- The contexts are those of the history. -/
structure Sound (rs : Records) (g : Desktop) : Prop where
  agree : g.findDc = rs
  once : ∀ h, Once (Dc.is h) g.dcs
  memory : ∀ h d, rs h = some d → d.isMemdc = true → d.hwnd = 0
  noWindow : g.wmFind 0 = none
  noBitmap : g.bitmaps.find? (Bitmap.is 0) = none

variable {rs : Records}

theorem Sound.windowless (hs : Sound rs g) (h : g.findDc hdc = some dc) : Windowless g dc := by
  intro hmem
  rw [hs.memory hdc dc (hs.agree ▸ h) hmem]
  exact hs.noWindow

theorem Sound.null (hs : Sound rs g) : g.findBitmap 0 = none := by
  unfold Desktop.findBitmap
  rw [hs.noBitmap]
  rfl

theorem Sound.change {f : Dc → Dc} (hs : Sound rs g) (hf : Keeps f) :
    Sound (rs.change hdc f) (g.setDc hdc f) where
  agree := by rw [findDc_change hf, hs.agree]
  once h := (hs.once h).revise fun d _ hd => (hf.is d) ▸ hd
  memory h d hd hmem := by
    unfold Records.change at hd
    by_cases heq : h = hdc
    · subst heq
      rw [Function.update_self] at hd
      obtain ⟨d', hd', rfl⟩ := Option.map_eq_some_iff.mp hd
      rw [hf.isMemdc] at hmem
      rw [hf.hwnd]
      exact hs.memory h d' hd' hmem
    · rw [Function.update_of_ne heq] at hd
      exact hs.memory h d hd hmem
  noWindow := hs.noWindow
  noBitmap := hs.noBitmap

theorem Sound.release (hs : Sound rs g) :
    Sound (Function.update rs hdc none) (g.releaseDc hdc) where
  agree := by rw [findDc_release (hs.once hdc), hs.agree]
  once h := (hs.once h).revise fun d _ hd => by simp [Dc.is] at hd
  memory h d hd hmem := by
    by_cases heq : h = hdc
    · subst heq
      simp at hd
    · rw [Function.update_of_ne heq] at hd
      exact hs.memory h d hd hmem
  noWindow := hs.noWindow
  noBitmap := hs.noBitmap

theorem Sound.allot (hs : Sound rs g) (hfree : g.freeDc = some d) (hnew : g.Unissued)
    (hfill : Fills g fill) (hmem : (fill d).isMemdc = true → (fill d).hwnd = 0) :
    Sound (rs.enter g.nextDc (fill d)) (g.allot fill) where
  agree := by
    unfold Records.enter
    rw [if_neg hnew.1, findDc_allot hfree hnew.2 hfill, hs.agree]
  once := once_allot hnew.2 hfill hs.once
  memory h d' hd' hmem' := by
    unfold Records.enter at hd'
    rw [if_neg hnew.1] at hd'
    by_cases heq : h = g.nextDc
    · subst heq
      rw [Function.update_self] at hd'
      cases hd'
      exact hmem hmem'
    · rw [Function.update_of_ne heq] at hd'
      exact hs.memory h d' hd' hmem'
  noWindow := hs.noWindow
  noBitmap := hs.noBitmap

theorem findBitmap_handle {b : Bitmap} (h : g.findBitmap hbitmap = some b) :
    b.handle = hbitmap := by
  have hfind := Option.join_eq_some_iff.mp h
  simpa [Bitmap.is] using List.find?_some hfind

theorem Frame.noWindow (h : Frame g g' r) (h0 : g.wmFind 0 = none) : g'.wmFind 0 = none := by
  unfold Desktop.wmFind at h0 ⊢
  cases r with
  | none => rw [h.1, h0]
  | some dc =>
    cases hmem : dc.isMemdc with
    | true => rw [((frame_memory hmem).mp h).windows, h0]
    | false =>
      obtain ⟨⟨client, clientDirty, hw⟩, -⟩ := (frame_window hmem).mp h
      rw [hw]
      exact find?_revise_none h0 fun _ h => h

theorem Frame.noBitmap (h : Frame g g' r) (h0 : g.bitmaps.find? (Bitmap.is 0) = none) :
    g'.bitmaps.find? (Bitmap.is 0) = none := by
  cases r with
  | none => rw [h.2, h0]
  | some dc =>
    cases hmem : dc.isMemdc with
    | true =>
      obtain ⟨-, hb | ⟨hsel, b, hfind, px, hb⟩⟩ := (frame_memory hmem).mp h
      · rw [hb, h0]
      · rw [hb]
        refine find?_revise_none h0 fun _ hzero => ?_
        have hb0 : b.handle = 0 := by simpa [Bitmap.is] using hzero
        exact absurd ((findBitmap_handle hfind).symm.trans hb0) hsel
    | false => rw [((frame_window hmem).mp h).bitmaps, h0]

theorem Sound.frame (hs : Sound rs g) (h : Frame g g' r) (hdcs : g'.dcs = g.dcs) : Sound rs g' where
  agree := by
    rw [← hs.agree]
    unfold Desktop.findDc
    rw [hdcs]
  once := hdcs ▸ hs.once
  memory := hs.memory
  noWindow := h.noWindow hs.noWindow
  noBitmap := h.noBitmap hs.noBitmap

theorem Sound.getDc (hs : Sound rs g) (hok : Proper g (.getDc hwnd)) :
    Sound (rs.enter (g.getDc hwnd).1 (Dc.window (g.getDc hwnd).1 hwnd)) (g.getDc hwnd).2 := by
  unfold Desktop.getDc
  cases hfree : g.freeDc with
  | none => exact hs
  | some d =>
    obtain ⟨hmem, hsel⟩ := hok.2 d hfree
    have hfill : Fills g fun d => { d with
        used := true, handle := g.nextDc, hwnd, textColor := 0x00000000
        bkColor := 0x00FFFFFF, bkMode := 2, curX := 0, curY := 0
        fontPx := 13, fontBold := false, fontName := "" } := fun _ => ⟨rfl, rfl⟩
    have hd : Dc.window g.nextDc hwnd = { d with
        used := true, handle := g.nextDc, hwnd, textColor := 0x00000000
        bkColor := 0x00FFFFFF, bkMode := 2, curX := 0, curY := 0
        fontPx := 13, fontBold := false, fontName := "" } := by
      simp [Dc.window, Dc.zero, hmem, hsel]
    dsimp only
    rw [hd]
    exact hs.allot hfree hok.1 hfill fun h => by simp [hmem] at h

theorem Sound.createMemoryDc (hs : Sound rs g) (hok : Proper g .createMemoryDc) :
    Sound (rs.enter g.createMemoryDc.1 (Dc.memory g.createMemoryDc.1)) g.createMemoryDc.2 := by
  unfold Desktop.createMemoryDc
  cases hfree : g.freeDc with
  | none => exact hs
  | some d =>
    have hfill : Fills g fun _ => Dc.memory g.nextDc := fun _ => ⟨rfl, rfl⟩
    exact hs.allot hfree hok hfill fun _ => rfl

theorem Sound.selectBitmap (hs : Sound rs g) :
    Sound (rs.change hdc fun d => { d with selBitmap := hbitmap })
      (g.selectBitmap hdc hbitmap).2 := by
  have hset : Sound (rs.change hdc _) _ := hs.change (select_keeps hbitmap)
  unfold Desktop.selectBitmap
  cases hfind : g.findDc hdc with
  | none =>
    have hsame : g.setDc hdc (fun d => { d with selBitmap := hbitmap }) = g := by
      unfold Desktop.setDc
      rw [revise_none hfind]
    rwa [hsame] at hset
  | some d => exact hset

/-- What a draw does to the screen and to the contexts. -/
theorem Sound.draw (hs : Sound rs g) (hrun : Draw.run room g hdc d = .ok (some (pts, g'))) :
    Frame g g' (rs hdc) ∧ Sound (track rs (.draw room hdc d, .drew pts)) g' := by
  have hwin : ∀ dc, g.findDc hdc = some dc → Windowless g dc := fun dc h => hs.windowless h
  have hagree := hs.agree
  subst hagree
  cases d with
  | fill l t r b cr =>
    obtain ⟨g₁, hfill, hrun⟩ := bind_eq_ok.mp hrun
    cases hrun
    obtain ⟨hframe, hdcs⟩ := fillRect_frame hwin hfill
    exact ⟨hframe, hs.frame hframe hdcs⟩
  | line fuel x y =>
    obtain ⟨hframe, ⟨rfl, hdcs⟩ | ⟨hpts, hdcs⟩⟩ := lineTo_frame hwin hrun
    · exact ⟨hframe, hs.frame hframe hdcs⟩
    · obtain ⟨p, pts, rfl⟩ := List.exists_cons_of_ne_nil hpts
      exact ⟨hframe, (hs.change (Attribute.keeps (.pen x y))).frame (Frame.of_eq hframe rfl rfl) hdcs⟩
  | blit a hdcSrc =>
    obtain ⟨g₁, hblit, hrun⟩ := bind_eq_ok.mp hrun
    cases hrun
    obtain ⟨hframe, hdcs⟩ := blit_frame hs.null hblit
    exact ⟨hframe, hs.frame hframe hdcs⟩
  | bitmap a hbitmap =>
    obtain ⟨g₁, hdraw, hrun⟩ := bind_eq_ok.mp hrun
    cases hrun
    obtain ⟨hframe, hdcs⟩ := drawBitmap_frame hs.null hdraw
    exact ⟨hframe, hs.frame hframe hdcs⟩

theorem step_draw (h : step g (.draw room hdc d) = some (g', e)) :
    ∃ pts, Draw.run room g hdc d = .ok (some (pts, g')) ∧ e = .drew pts := by
  unfold step at h
  dsimp only at h
  split at h
  · rename_i pts g₁ hrun
    cases h
    exact ⟨pts, hrun, rfl⟩
  · cases h

theorem Sound.step (hs : Sound rs g) (hok : Proper g a) (h : step g a = some (g', e)) :
    Sound (track rs (a, e)) g' := by
  cases a with
  | getDc hwnd =>
    cases h
    exact hs.getDc hok
  | createMemoryDc =>
    cases h
    exact hs.createMemoryDc hok
  | releaseDc hdc =>
    cases h
    exact hs.release
  | deleteDc hdc =>
    cases h
    exact hs.release
  | selectBitmap hdc hbitmap =>
    unfold Gdi.step at h
    dsimp only at h
    split at h
    · cases h
      exact hs.selectBitmap
    · cases h
  | set hdc a =>
    cases h
    exact hs.change a.keeps
  | draw room hdc d =>
    obtain ⟨pts, hrun, rfl⟩ := step_draw h
    exact (hs.draw hrun).2
  | world windows bitmaps =>
    cases h
    exact ⟨hs.agree, hs.once, hs.memory, hok.1, hok.2⟩

-- ---------------------------------------------------------------------------
-- Runs
-- ---------------------------------------------------------------------------

theorem records_snoc (tr : List (Call × Seen)) (x : Call × Seen) :
    records (tr ++ [x]) = track (records tr) x := by simp [records]

theorem boot_sound : Sound (records []) boot where
  agree := by
    funext h
    simp [boot, Desktop.findDc, Dc.is, Dc.zero, records]
  once h := by
    simp [boot, Once, Dc.is, Dc.zero]
  memory h d hd := by cases hd
  noWindow := rfl
  noBitmap := rfl

theorem run_sound (hrun : Run step Proper boot tr g) : Sound (records tr) g :=
  hrun.invariant (P := fun tr g => Sound (records tr) g) boot_sound fun hs hok h => by
    rw [records_snoc]
    exact hs.step hok h

theorem targets_law (hrun : Run step Proper boot tr g) :
    (∀ hdc, g.findDc hdc = records tr hdc) ∧ ∀ room hdc d g' e,
      step g (.draw room hdc d) = some (g', e) → Frame g g' (records tr hdc) := by
  have hs := run_sound hrun
  refine ⟨fun hdc => congrFun hs.agree hdc, fun room hdc d g' e h => ?_⟩
  obtain ⟨pts, hdraw, -⟩ := step_draw h
  exact (hs.draw hdraw).1

-- ---------------------------------------------------------------------------
-- Two runs
-- ---------------------------------------------------------------------------

instance (g : Desktop) : DecidablePred (Proper g)
  | .getDc _ => inferInstanceAs (Decidable ((_ ∧ _) ∧ _))
  | .createMemoryDc => inferInstanceAs (Decidable (_ ∧ _))
  | .world _ _ => inferInstanceAs (Decidable (_ ∧ _))
  | .releaseDc _ | .deleteDc _ | .selectBitmap _ _ | .set _ _ | .draw _ _ _ =>
    inferInstanceAs (Decidable True)

/-- A bitmap of one pixel. -/
def pixelMap (handle p : U32) : Option Bitmap := some ⟨handle, 1, 1, Vector.replicate 1 p⟩

theorem pixel_pos : 0 < 1 ∧ 0 < 1 := by decide

theorem pixel_fits : Fits (1 * 1) := by decide

/-- A window of one pixel. -/
def speck : Window :=
  ⟨0x10000, 0, true, 1, 33,
    some ⟨1, 1, Vector.replicate 1 0xFFF0F0F0, pixel_pos, pixel_fits⟩, false⟩

/-- One window and two bitmaps. -/
def screen : Call := .world [speck] [pixelMap 0x0B170000 0xFF000000, pixelMap 0x0B170001 0xFF0000FF]

def unit : Area := ⟨0, 0, 1, 1, 0, 0, 1, 1⟩

/-- A memory context with a bitmap is deleted, and its slot filled for a window. -/
def recycled : List Call :=
  [screen, .createMemoryDc, .selectBitmap 0x00DC0000 0x0B170000, .deleteDc 0x00DC0000,
    .getDc 0x10000, .createMemoryDc, .selectBitmap 0x00DC0002 0x0B170001]

/-- The memory context lives on beside the window's. -/
def sideBySide : List Call :=
  [screen, .createMemoryDc, .selectBitmap 0x00DC0000 0x0B170000, .getDc 0x10000]

def anyRoom (_ : Nat) : Bool := true

def Desktop.pixels (g : Desktop) : List (Option (List U32)) :=
  g.bitmaps.map fun b => b.map fun b : Bitmap => b.px.toList

theorem sideBySide_runs : (exec step Proper boot sideBySide).any (fun r =>
    (step r.2 (.draw anyRoom 0x00DC0001 (.fill 0 0 1 1 0x000000FF))).isSome) = true := by
  decide +kernel

theorem recycled_runs : (exec step anyStep boot recycled).any (fun r =>
    records r.1 0x00DC0001 = some (Dc.window 0x00DC0001 0x10000) &&
      (step r.2 (.draw anyRoom 0x00DC0001 (.blit unit 0x00DC0002))).any fun s =>
        s.1.pixels != r.2.pixels) = true := by
  decide +kernel

theorem targets_sideBySide : ∃ tr g g' e, Run step Proper boot tr g ∧
    (∀ hdc, g.findDc hdc = records tr hdc) ∧
      step g (.draw anyRoom 0x00DC0001 (.fill 0 0 1 1 0x000000FF)) = some (g', e) ∧
        Frame g g' (records tr 0x00DC0001) := by
  obtain ⟨tr, g, hrun, hdraw⟩ := Run.of_exec_any sideBySide_runs
  obtain ⟨⟨g', e⟩, hstep⟩ := Option.isSome_iff_exists.mp hdraw
  obtain ⟨hagree, hframe⟩ := targets_law hrun
  exact ⟨tr, g, g', e, hrun, hagree, hstep, hframe _ _ _ _ _ hstep⟩

/-- A blit on a window context changes the bitmap that was selected into the memory context
whose slot it has. -/
theorem stale_target : ∃ tr g g' e, Run step anyStep boot tr g ∧
    records tr 0x00DC0001 = some (Dc.window 0x00DC0001 0x10000) ∧
      step g (.draw anyRoom 0x00DC0001 (.blit unit 0x00DC0002)) = some (g', e) ∧
        ¬ Frame g g' (records tr 0x00DC0001) := by
  obtain ⟨tr, g, hrun, h⟩ := Run.of_exec_any recycled_runs
  simp only [Bool.and_eq_true, decide_eq_true_eq] at h
  obtain ⟨hrec, hdraw⟩ := h
  obtain ⟨⟨g', e⟩, hstep, hne⟩ := Option.any_eq_true _ _ |>.mp hdraw
  refine ⟨tr, g, g', e, hrun, hrec, hstep, fun hframe => ?_⟩
  rw [hrec, frame_window rfl] at hframe
  have hsame : g'.pixels = g.pixels := by
    unfold Desktop.pixels
    rw [hframe.bitmaps]
  simp [hsame] at hne

end WineGlass.Gdi
