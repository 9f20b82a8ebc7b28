import Zub1cg.Tooling.ZubCtl

/-!
# Lines and the boundaries of reads

The lines do not depend on where the text was cut into pieces. But it is the bytes that are cut,
and every piece is decoded on its own: a character that is cut in two becomes several broken
sequences, and each of them is replaced.

## Main results

- `feed_eq` — the lines are those of the decoded pieces
- `feed_iff` — when they are those of the whole
-/

namespace ZubCtl

open Utf8 (Inside fromUtf8Lossy decode)

/-! ### The text -/

/-- One turn of the loop. -/
theorem drainLines_line {buf : List Char} (h : buf.idxOf '\n' < buf.length) :
    drainLines buf =
      ((if trimEnd (buf.take (buf.idxOf '\n' + 1)) = [] then []
          else [trimEnd (buf.take (buf.idxOf '\n' + 1))]) ++
        (drainLines (buf.drop (buf.idxOf '\n' + 1))).1,
      (drainLines (buf.drop (buf.idxOf '\n' + 1))).2) := by
  rw [drainLines, dif_pos h]
  dsimp only
  split <;> rfl

theorem drainLines_open {buf : List Char} (h : ¬ buf.idxOf '\n' < buf.length) :
    drainLines buf = ([], buf) := by
  rw [drainLines, dif_neg h]

theorem drainLines_nil : drainLines [] = ([], []) :=
  drainLines_open (Nat.not_lt_zero _)

/-- What is left has no complete line. -/
theorem drainLines_rest (buf : List Char) :
    drainLines (drainLines buf).2 = ([], (drainLines buf).2) := by
  induction buf using drainLines.induct with
  | case1 buf h ih =>
    rw [drainLines_line h]
    exact ih
  | case2 buf h =>
    rw [drainLines_open h]
    exact drainLines_open h

/-- The lines of a text, and those that come with what is added to it. -/
theorem drainLines_append (buf more : List Char) :
    drainLines (buf ++ more) =
      ((drainLines buf).1 ++ (drainLines ((drainLines buf).2 ++ more)).1,
        (drainLines ((drainLines buf).2 ++ more)).2) := by
  induction buf using drainLines.induct with
  | case1 buf h ih =>
    have hindex : (buf ++ more).idxOf '\n' = buf.idxOf '\n' :=
      List.idxOf_append_of_mem (List.idxOf_lt_length_iff.mp h)
    have hlong : (buf ++ more).idxOf '\n' < (buf ++ more).length := by
      rw [hindex, List.length_append]
      omega
    rw [drainLines_line hlong, drainLines_line h, hindex, List.take_append_of_le_length h,
      List.drop_append_of_le_length h, ih, List.append_assoc]
  | case2 buf h => rw [drainLines_open h, List.nil_append]

/-- The pieces give the lines of their texts, put together. -/
theorem feed_eq (buf : List Char) (chunks : List (List UInt8))
    (h : drainLines buf = ([], buf)) :
    feed buf chunks = drainLines (buf ++ chunks.flatMap fromUtf8Lossy) := by
  induction chunks generalizing buf with
  | nil => rw [feed, List.flatMap_nil, List.append_nil, h]
  | cons bytes chunks ih =>
    have hpushed := drainLines_append (buf ++ fromUtf8Lossy bytes)
      (chunks.flatMap fromUtf8Lossy)
    rw [feed, pushBytesToLines, ih _ (drainLines_rest _), List.flatMap_cons, ← List.append_assoc,
      hpushed]

/-! ### What is kept -/

/-- The characters that are never stripped. -/
def isKept (c : Char) : Bool := !(c == '\r' || c == '\n')

theorem countP_trimEnd (raw : List Char) : (trimEnd raw).countP isKept = raw.countP isKept := by
  have hdropped : ∀ text : List Char,
      (text.dropWhile fun c => c == '\r' || c == '\n').countP isKept = text.countP isKept := by
    intro text
    induction text with
    | nil => rfl
    | cons c text ih =>
      rw [List.dropWhile_cons]
      split
      · next hc => rw [ih, List.countP_cons_of_neg (by simp [isKept, hc])]
      · rfl
  rw [trimEnd, List.rdropWhile, List.countP_reverse, hdropped, List.countP_reverse]

/-- All of these are in the lines or in the buffer. -/
theorem countP_drainLines (buf : List Char) :
    (drainLines buf).1.flatten.countP isKept + (drainLines buf).2.countP isKept =
      buf.countP isKept := by
  induction buf using drainLines.induct with
  | case1 buf h ih =>
    have hline := countP_trimEnd (buf.take (buf.idxOf '\n' + 1))
    have hsplit : buf.countP isKept = (buf.take (buf.idxOf '\n' + 1)).countP isKept +
        (buf.drop (buf.idxOf '\n' + 1)).countP isKept := by
      rw [← List.countP_append, List.take_append_drop]
    rw [drainLines_line h, hsplit, ← hline, ← ih, List.flatten_append, List.countP_append,
      Nat.add_assoc]
    congr 1
    split
    · next hempty => rw [hempty, List.flatten_nil]
    · rw [List.flatten_singleton]
  | case2 buf h => rw [drainLines_open h, List.flatten_nil, List.countP_nil, Nat.zero_add]

/-! ### The cuts -/

/-- A piece of the text counts. -/
def counts (c : Option Char) : Bool := isKept (c.getD '\uFFFD')

theorem countP_lossy (bytes : List UInt8) :
    (fromUtf8Lossy bytes).countP isKept = (decode bytes).countP counts := by
  rw [fromUtf8Lossy, List.countP_map]
  rfl

theorem countP_flatten_le (chunks : List (List UInt8)) :
    (decode chunks.flatten).countP counts ≤
      (chunks.flatMap fromUtf8Lossy).countP isKept := by
  induction chunks with
  | nil => exact Nat.zero_le _
  | cons bytes chunks ih =>
    have hle := Utf8.countP_decode_append_le (P := counts) rfl bytes chunks.flatten
    rw [List.flatten_cons, List.flatMap_cons, List.countP_append, countP_lossy]
    omega

/-- If no cut falls inside a sequence, the texts of the pieces are that of the whole. -/
theorem lossy_flatten {chunks : List (List UInt8)}
    (h : ∀ front back, chunks = front ++ back → ¬ Inside front.flatten back.flatten) :
    chunks.flatMap fromUtf8Lossy = fromUtf8Lossy chunks.flatten := by
  induction chunks with
  | nil => rfl
  | cons bytes chunks ih =>
    have hcut : ¬ Inside bytes chunks.flatten := by
      have hfirst := h [bytes] chunks rfl
      rwa [List.flatten_singleton] at hfirst
    have hwhole : fromUtf8Lossy (bytes ++ chunks.flatten) =
        fromUtf8Lossy bytes ++ fromUtf8Lossy chunks.flatten := by
      rw [fromUtf8Lossy, Utf8.decode_append hcut, List.map_append]
      rfl
    rw [List.flatMap_cons, List.flatten_cons, hwhole, ih]
    rintro front back rfl ⟨p, b, rest, hstate, hback, hfits⟩
    by_cases hempty : front.flatten = []
    · rw [hempty] at hstate
      cases hstate
    · -- behind the first cut the decoder does not know of the first piece
      have hcut' : ¬ Inside bytes front.flatten := by
        intro hinside
        apply hcut
        rw [List.flatten_append]
        exact hinside.append back.flatten
      refine h (bytes :: front) back rfl ⟨p, b, rest, ?_, hback, hfits⟩
      rw [List.flatten_cons, Utf8.run_append_state hcut' hempty, hstate]

/-- A cut inside a sequence changes the lines or the buffer. -/
theorem feed_ne_of_inside {front back : List (List UInt8)}
    (h : Inside front.flatten back.flatten) :
    feed [] (front ++ back) ≠ pushBytesToLines [] (front ++ back).flatten := by
  intro heq
  rw [feed_eq [] _ drainLines_nil, pushBytesToLines] at heq
  have hkept := countP_drainLines ([] ++ (front ++ back).flatMap fromUtf8Lossy)
  rw [heq, countP_drainLines] at hkept
  have hlt := Utf8.countP_decode_append_lt (P := counts) rfl h
  have hfront := countP_flatten_le front
  have hback := countP_flatten_le back
  simp only [List.nil_append, List.flatMap_append, List.flatten_append, List.countP_append,
    countP_lossy] at hkept
  omega

/-- **When the boundaries of the reads cannot be seen.** The pieces of a byte string give the lines
and the buffer of the whole if and only if none of the cuts falls inside a sequence of bytes that
stands for a character or, if the bytes are not well formed, for the beginning of one. -/
theorem feed_iff (chunks : List (List UInt8)) :
    feed [] chunks = pushBytesToLines [] chunks.flatten ↔
      ∀ front back, chunks = front ++ back → ¬ Inside front.flatten back.flatten := by
  constructor
  · rintro heq front back rfl hinside
    exact feed_ne_of_inside hinside heq
  · intro h
    rw [feed_eq [] _ drainLines_nil, pushBytesToLines, lossy_flatten h]

/-- One letter of two bytes, in two reads. -/
theorem feed_cut :
    ¬ ∀ (bytes : List UInt8) (chunks : List (List UInt8)), chunks.flatten = bytes →
      feed [] chunks = pushBytesToLines [] bytes := by
  intro h
  have hinside : Inside [[0xC3]].flatten [[0xA9]].flatten :=
    ⟨⟨3, Utf8.tail, []⟩, 0xA9, [], by decide, rfl, by decide⟩
  exact feed_ne_of_inside hinside (h _ _ rfl)

end ZubCtl
