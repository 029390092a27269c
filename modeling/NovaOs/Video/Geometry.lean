import Mathlib.Tactic.SplitIfs

/-! The rectangle arithmetic of the framebuffer calls, `kernel/drivers/video/fb_geom.h`. -/

namespace NovaOs.Video

def fbGeomBpp : UInt32 := 4
def fbGeomMaxDim : UInt32 := 2048

def fbSurfaceDimsOk (w h : UInt32) : Bool :=
  1 ≤ w && 1 ≤ h && w ≤ fbGeomMaxDim && h ≤ fbGeomMaxDim

/-- A copy: where it reads in the surface, where it writes on the display, and how much. -/
structure FbBlit where
  srcX : Int32
  srcY : Int32
  dstX : Int32
  dstY : Int32
  w : Int32
  h : Int32

/-- What clipping answers. -/
inductive FbClip where
  | invalid
  | empty
  | ok (out : FbBlit)

/-- An unsigned word among the signed double words. -/
def wide (size : UInt32) : Int64 := Int64.ofNat size.toNat

/-- Where a copy starts on one axis of the display. -/
def clipStart (dst : Int32) : Int64 := if dst.toInt64 < 0 then 0 else dst.toInt64

/-- Where it ends there. -/
def clipEnd (dst len : Int32) (size : UInt32) : Int64 :=
  if dst.toInt64 + len.toInt64 > wide size then wide size else dst.toInt64 + len.toInt64

/-- The part of a copy that the display shows. A source outside of the surface is refused. -/
def fbClipBlit (sw sh dw dh : UInt32) (asked : FbBlit) : FbClip :=
  let ⟨sx, sy, dx, dy, w, h⟩ := asked
  if w ≤ 0 || h ≤ 0 then .invalid
  else if sx < 0 || sy < 0 then .invalid
  else if sx.toInt64 + w.toInt64 > wide sw || sy.toInt64 + h.toInt64 > wide sh then .invalid
  else
    let cx0 := clipStart dx
    let cy0 := clipStart dy
    let cx1 := clipEnd dx w dw
    let cy1 := clipEnd dy h dh
    if cx0 ≥ cx1 || cy0 ≥ cy1 then .empty
    else .ok
      { srcX := (sx.toInt64 + (cx0 - dx.toInt64)).toInt32
        srcY := (sy.toInt64 + (cy0 - dy.toInt64)).toInt32
        dstX := cx0.toInt32
        dstY := cy0.toInt32
        w := (cx1 - cx0).toInt32
        h := (cy1 - cy0).toInt32 }

/-- The bytes from the first pixel of a rectangle to its last. -/
def fbBufferSpan (stride : UInt32) (w h : Int32) : Option UInt32 :=
  if w ≤ 0 || h ≤ 0 then none
  else if w.toUInt32 > 0x3FFFFFFF then none
  else
    let row := w.toUInt32 * fbGeomBpp
    if stride < row then none
    else
      let rowsBeforeLast := h.toUInt32 - 1
      if rowsBeforeLast ≠ 0 && stride > (0xFFFFFFFF - row) / rowsBeforeLast then none
      else some (rowsBeforeLast * stride + row)

section Clipping

/-- A pixel of a picture of that size. -/
def Inside (width height : UInt32) (pixel : Int × Int) : Prop :=
  (0 ≤ pixel.1 ∧ pixel.1 < width.toNat) ∧ (0 ≤ pixel.2 ∧ pixel.2 < height.toNat)

/-- The pixels a copy takes, each with the place it is put at. -/
def FbBlit.Copies (blit : FbBlit) (source dest : Int × Int) : Prop :=
  ∃ i j : Int, (0 ≤ i ∧ i < blit.w.toInt) ∧ (0 ≤ j ∧ j < blit.h.toInt) ∧
    source = (blit.srcX.toInt + i, blit.srcY.toInt + j) ∧
    dest = (blit.dstX.toInt + i, blit.dstY.toInt + j)

/-- On one axis, a copy reads within the surface and the display shows some of it. -/
def Seen (src dst len : Int32) (surface display : UInt32) : Prop :=
  0 < len.toInt ∧ 0 ≤ src.toInt ∧ src.toInt + len.toInt ≤ surface.toNat ∧
    max 0 dst.toInt < min (display.toNat : Int) (dst.toInt + len.toInt)

/-- On one axis, what is left of a copy. -/
def Cut (src dst len : Int32) (display : UInt32) (src' dst' len' : Int32) : Prop :=
  src'.toInt - src.toInt = dst'.toInt - dst.toInt ∧ dst'.toInt = max 0 dst.toInt ∧
    dst'.toInt + len'.toInt = min (display.toNat : Int) (dst.toInt + len.toInt)

def FbBlit.Shown (blit : FbBlit) (sw sh dw dh : UInt32) : Prop :=
  Seen blit.srcX blit.dstX blit.w sw dw ∧ Seen blit.srcY blit.dstY blit.h sh dh

variable {sw sh dw dh : UInt32}

theorem toInt_wide (size : UInt32) : (wide size).toInt = size.toNat := by
  have small := size.toNat_lt
  exact Int64.toInt_ofNat_of_lt (by omega)

/-- Sums of words do not wrap among the double words. -/
theorem toInt_sum (a b : Int32) : (a.toInt64 + b.toInt64).toInt = a.toInt + b.toInt := by
  have bounds := And.intro (And.intro a.le_toInt a.toInt_lt) (And.intro b.le_toInt b.toInt_lt)
  rw [Int64.toInt_add, Int32.toInt_toInt64, Int32.toInt_toInt64]
  exact Int.bmod_eq_of_le_mul_two (by omega) (by omega)

theorem toInt_clipStart (dst : Int32) : (clipStart dst).toInt = max 0 dst.toInt := by
  simp only [clipStart, Int64.lt_iff_toInt_lt, Int32.toInt_toInt64, Int64.toInt_zero]
  split <;> simp only [Int32.toInt_toInt64, Int64.toInt_zero] <;> omega

theorem toInt_clipEnd (dst len : Int32) (size : UInt32) :
    (clipEnd dst len size).toInt = min (size.toNat : Int) (dst.toInt + len.toInt) := by
  simp only [clipEnd, gt_iff_lt, Int64.lt_iff_toInt_lt, toInt_sum, toInt_wide]
  split <;> simp only [toInt_sum, toInt_wide] <;> omega

/-- A copy is shown or refused, and what is left of it is cut on both axes. -/
theorem fbClipBlit_spec (dw dh : UInt32) (asked : FbBlit) (dims : fbSurfaceDimsOk sw sh = true) :
    match fbClipBlit sw sh dw dh asked with
    | .ok out => asked.Shown sw sh dw dh ∧
        Cut asked.srcX asked.dstX asked.w dw out.srcX out.dstX out.w ∧
        Cut asked.srcY asked.dstY asked.h dh out.srcY out.dstY out.h
    | _ => ¬ asked.Shown sw sh dw dh := by
  obtain ⟨sx, sy, dx, dy, w, h⟩ := asked
  have small : sw.toNat ≤ 2048 ∧ sh.toNat ≤ 2048 := by
    simp only [fbSurfaceDimsOk, Bool.and_eq_true, decide_eq_true_eq] at dims
    exact ⟨UInt32.le_iff_toNat_le.mp dims.1.2, UInt32.le_iff_toNat_le.mp dims.2⟩
  have bounds := And.intro (And.intro dx.le_toInt dx.toInt_lt) (And.intro dy.le_toInt dy.toInt_lt)
  simp only [fbClipBlit, FbBlit.Shown, Seen, Cut, Bool.or_eq_true, decide_eq_true_eq, gt_iff_lt,
    ge_iff_le, Int32.le_iff_toInt_le, Int32.lt_iff_toInt_lt, Int32.toInt_zero,
    Int64.lt_iff_toInt_lt, Int64.le_iff_toInt_le, toInt_sum, toInt_wide, toInt_clipStart,
    toInt_clipEnd]
  split_ifs
  any_goals
    dsimp only
    omega
  -- None of the numbers left leaves the range of a word.
  simp (disch := omega) only [Int64.toInt_toInt32, Int64.toInt_sub, Int64.toInt_add,
    toInt_clipStart, toInt_clipEnd, Int32.toInt_toInt64, Int.bmod_eq_of_le_mul_two, true_and]
  omega

/-- A copy is shown when all it reads lies in the surface and something it writes is seen. -/
theorem shown_iff {asked : FbBlit} :
    asked.Shown sw sh dw dh ↔
      (∀ source dest, asked.Copies source dest → Inside sw sh source) ∧
        ∃ source dest, asked.Copies source dest ∧ Inside dw dh dest := by
  obtain ⟨sx, sy, dx, dy, w, h⟩ := asked
  simp only [FbBlit.Shown, Seen, FbBlit.Copies, Inside]
  constructor
  · intro met
    -- The first pixel seen is as far into the copy as this starts off the display.
    refine ⟨?_, _, _, ⟨max 0 dx.toInt - dx.toInt, max 0 dy.toInt - dy.toInt, ?_, ?_, rfl, rfl⟩, ?_⟩
    · rintro _ _ ⟨i, j, _, _, rfl, rfl⟩
      omega
    all_goals omega
  · -- Two corners of the copy lie in the surface.
    rintro ⟨inside, _, _, ⟨i, j, _, _, rfl, rfl⟩, seen⟩
    have first := inside _ _ ⟨0, 0, by omega, by omega, rfl, rfl⟩
    have last := inside _ _ ⟨w.toInt - 1, h.toInt - 1, by omega, by omega, rfl, rfl⟩
    omega

/-- What is taken of a copy is what the display shows of it, pixel by pixel. -/
theorem clipped_iff {asked out : FbBlit} (dims : fbSurfaceDimsOk sw sh = true)
    (run : fbClipBlit sw sh dw dh asked = .ok out) (source dest : Int × Int) :
    out.Copies source dest ↔ asked.Copies source dest ∧ Inside dw dh dest := by
  have spec := fbClipBlit_spec dw dh asked dims
  simp only [run, FbBlit.Shown, Seen, Cut] at spec
  simp only [FbBlit.Copies, Inside]
  constructor
  · rintro ⟨i, j, _, _, rfl, rfl⟩
    refine ⟨⟨i + out.dstX.toInt - asked.dstX.toInt, j + out.dstY.toInt - asked.dstY.toInt, ?_⟩, ?_⟩
    all_goals simp only [Prod.mk.injEq]; omega
  · rintro ⟨⟨i, j, _, _, rfl, rfl⟩, seen⟩
    refine ⟨i + asked.dstX.toInt - out.dstX.toInt, j + asked.dstY.toInt - out.dstY.toInt, ?_⟩
    simp only [Prod.mk.injEq]
    omega

end Clipping

section Span

variable {stride : UInt32} {w h : Int32}

/-- The bytes of a rectangle, the padding after its last row not counted. -/
def span (stride : UInt32) (w h : Int32) : Int := (h.toInt - 1) * stride.toNat + 4 * w.toInt

/-- A positive number is the same unsigned. -/
theorem toNat_toUInt32 {n : Int32} (positive : 0 < n.toInt) :
    (n.toUInt32.toNat : Int) = n.toInt := by
  have same := Int32.toNat_toUInt32_of_le (x := n)
    (Int32.le_iff_toInt_le.mpr (Int.le_of_lt positive))
  rw [same, Int32.toNatClampNeg]
  omega

/-- A span is refused when there is none or it is no word, and is the exact one otherwise. -/
theorem fbBufferSpan_spec (stride : UInt32) (w h : Int32) :
    match fbBufferSpan stride w h with
    | none =>
      w.toInt ≤ 0 ∨ h.toInt ≤ 0 ∨ (stride.toNat : Int) < 4 * w.toInt ∨ 0x100000000 ≤ span stride w h
    | some bytes =>
      (0 < w.toInt ∧ 0 < h.toInt ∧ 4 * w.toInt ≤ stride.toNat) ∧ bytes.toNat = span stride w h := by
  have bound := stride.toNat_lt
  simp only [fbBufferSpan, Bool.or_eq_true, Bool.and_eq_true, decide_eq_true_eq,
    Int32.le_iff_toInt_le, Int32.toInt_zero, gt_iff_lt, UInt32.lt_iff_toNat_lt, ne_eq,
    ← UInt32.toNat_inj]
  by_cases empty : w.toInt ≤ 0 ∨ h.toInt ≤ 0
  · rw [if_pos empty]
    omega
  have width := toNat_toUInt32 (n := w) (by omega)
  have height := toNat_toUInt32 (n := h) (by omega)
  -- A row of more bytes than a word counts is longer than any stride.
  by_cases large : 0x3FFFFFFF < w.toUInt32.toNat
  · rw [if_neg empty, if_pos (show UInt32.toNat 0x3FFFFFFF < _ from large)]
    omega
  have row : (w.toUInt32 * fbGeomBpp).toNat = 4 * w.toUInt32.toNat := by
    rw [UInt32.toNat_mul, show fbGeomBpp.toNat = 4 from rfl]
    omega
  rw [if_neg empty, if_neg (show ¬ UInt32.toNat 0x3FFFFFFF < _ from large), row]
  by_cases short : stride.toNat < 4 * w.toUInt32.toNat
  · rw [if_pos short]
    omega
  have rows : (h.toUInt32 - 1).toNat = h.toUInt32.toNat - 1 :=
    UInt32.toNat_sub_of_le _ _ (UInt32.le_iff_toNat_le.mpr (by rw [UInt32.toNat_one]; omega))
  have left : (0xFFFFFFFF - w.toUInt32 * fbGeomBpp).toNat = 0xFFFFFFFF - 4 * w.toUInt32.toNat :=
    row ▸ UInt32.toNat_sub_of_le _ _
      (UInt32.le_iff_toNat_le.mpr (Nat.le_of_lt_succ (UInt32.toNat_lt _)))
  have whole : span stride w h
      = ((h.toUInt32.toNat - 1) * stride.toNat + 4 * w.toUInt32.toNat : Nat) := by
    rw [span, ← width, ← height]
    push_cast [show 1 ≤ h.toUInt32.toNat by omega]
    rfl
  rw [if_neg short, UInt32.toNat_div, left, rows, UInt32.toNat_zero, whole]
  -- The division stands for the product that could wrap.
  by_cases many : ¬ h.toUInt32.toNat - 1 = 0 ∧
      (0xFFFFFFFF - 4 * w.toUInt32.toNat) / (h.toUInt32.toNat - 1) < stride.toNat
  · have beyond := (Nat.div_lt_iff_lt_mul (Nat.pos_of_ne_zero many.1)).mp many.2
    rw [if_pos many, Nat.mul_comm]
    omega
  have fits : (h.toUInt32.toNat - 1) * stride.toNat + 4 * w.toUInt32.toNat < 2 ^ 32 := by
    by_cases single : h.toUInt32.toNat - 1 = 0
    · rw [single]
      omega
    · have within := (Nat.le_div_iff_mul_le (Nat.pos_of_ne_zero single)).mp
        (Nat.le_of_not_lt fun more => many ⟨single, more⟩)
      rw [Nat.mul_comm]
      omega
  rw [if_neg many]
  refine ⟨by omega, ?_⟩
  rw [UInt32.toNat_add, UInt32.toNat_mul, row, rows, Nat.mod_add_mod, Nat.mod_eq_of_lt fits]

end Span

/-- Clipping keeps exactly the pixels a display shows, and a span is exact or refused. -/
theorem fb_geometry_exact {sw sh : UInt32} (dims : fbSurfaceDimsOk sw sh = true) (dw dh : UInt32)
    (asked : FbBlit) :
    ((∃ out, fbClipBlit sw sh dw dh asked = .ok out) ↔
        (∀ source dest, asked.Copies source dest → Inside sw sh source) ∧
          ∃ source dest, asked.Copies source dest ∧ Inside dw dh dest) ∧
      (∀ out, fbClipBlit sw sh dw dh asked = .ok out → ∀ source dest,
        out.Copies source dest ↔ asked.Copies source dest ∧ Inside dw dh dest) ∧
      ∀ (stride : UInt32) (w h : Int32),
        (fbBufferSpan stride w h = none ↔ w.toInt ≤ 0 ∨ h.toInt ≤ 0 ∨
          (stride.toNat : Int) < 4 * w.toInt ∨ 0x100000000 ≤ span stride w h) ∧
        ∀ bytes, fbBufferSpan stride w h = some bytes → bytes.toNat = span stride w h := by
  refine ⟨?_, fun out run => clipped_iff dims run, fun stride w h => ?_⟩
  · rw [← shown_iff]
    have spec := fbClipBlit_spec dw dh asked dims
    cases run : fbClipBlit sw sh dw dh asked with
    | ok out => simpa [run] using (run ▸ spec).1
    | invalid | empty => simpa [run] using spec
  · have spec := fbBufferSpan_spec stride w h
    cases run : fbBufferSpan stride w h with
    | none => simpa [run] using spec
    | some bytes => ?_
    rw [run] at spec
    have small := bytes.toNat_lt
    refine ⟨iff_of_false nofun (by omega), ?_⟩
    rintro _ ⟨⟩
    exact spec.2

/-- A window dragged off the left edge of a screen and below its bottom. -/
theorem fb_geometry_exact_dragged :
    ∃ out, fbClipBlit 64 48 1024 768 ⟨0, 0, -10, 740, 64, 48⟩ = .ok out ∧
      (out.srcX, out.h) = (10, 28) ∧
      ∀ source dest, out.Copies source dest ↔
        FbBlit.Copies ⟨0, 0, -10, 740, 64, 48⟩ source dest ∧ Inside 1024 768 dest :=
  ⟨_, rfl, by decide,
    (fb_geometry_exact (show fbSurfaceDimsOk 64 48 = true by decide) _ _ _).2.1 _ rfl⟩

end NovaOs.Video
