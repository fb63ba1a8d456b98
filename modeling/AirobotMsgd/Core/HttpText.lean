/-
The text of an HTTP/1 message, as its receiver reads it: lines ended by CRLF, a blank line, and the body behind it.

- `joinLines` writes lines, `splitLines` reads them; `splitLines_joinLines` is the round trip for lines without a CR.
- `find_blankLine`: where the lines before it are not empty and hold no CR, the first blank line is the one written
  there, whatever the body holds.
- `headerValue` / `bodyOf`: the value of the first header line of a name, and the bytes after the first blank line.
- `Framed`: the receiver finds the end of the message where the sender put it, that is the body is as long as its
  Content-Length says.
-/
import AirobotMsgd.Core.Bytes

namespace AirobotMsgd.HttpText

open AirobotMsgd.Bytes

def crlf : Str := [13, 10]

/-- "\r\n\r\n" -/
def blankLine : Str := [13, 10, 13, 10]

def joinLines (ls : List Str) : Str := ls.flatMap (· ++ crlf)

/-- the pieces of a text between its CRLFs -/
def splitLines : Str → List Str
  | [] => [[]]
  | [b] => [[b]]
  | b :: c :: s =>
    if b = 13 ∧ c = 10 then [] :: splitLines s
    else match splitLines (c :: s) with
      | [] => [[b]]
      | l :: ls => (b :: l) :: ls

@[simp] theorem joinLines_nil : joinLines [] = [] := rfl

@[simp] theorem joinLines_cons (l : Str) (ls : List Str) : joinLines (l :: ls) = l ++ crlf ++ joinLines ls := rfl

theorem splitLines_line {l : Str} (h : 13 ∉ l) (s : Str) : splitLines (l ++ crlf ++ s) = l :: splitLines s := by
  induction l with
  | nil => simp [splitLines, crlf]
  | cons b l ih =>
    simp only [List.mem_cons, not_or] at h
    cases hl : l ++ crlf ++ s with
    | nil => simp [crlf] at hl
    | cons c t =>
      rw [List.cons_append, List.cons_append, hl, splitLines, if_neg (fun hb => h.1 hb.1.symm), ← hl, ih h.2]

/-- **Lines read back**: the pieces are the lines, and an empty one behind the last CRLF -/
theorem splitLines_joinLines {ls : List Str} (h : ∀ l ∈ ls, 13 ∉ l) : splitLines (joinLines ls) = ls ++ [[]] := by
  induction ls with
  | nil => rfl
  | cons l ls ih =>
    rw [joinLines_cons, splitLines_line (h l List.mem_cons_self), ih fun l' hl' => h l' (List.mem_cons_of_mem l hl')]
    rfl

/-- a blank line begins nowhere inside a line, and at its end only if the next line is empty -/
theorem not_blankLine_at {l s : Str} (h : 13 ∉ l) (hs : ¬ crlf <+: s) (j : ℕ) (hj : j < (l ++ crlf).length) :
    ¬ blankLine <+: (l ++ crlf ++ s).drop j := by
  intro hp
  rw [List.append_assoc, List.drop_append] at hp
  rcases Nat.lt_or_ge j l.length with hlt | hge
  · -- inside the line: its byte there would be a CR
    obtain ⟨u, hu⟩ := hp
    have h0 : l[j]? = some 13 := by
      have := congrArg (·[0]?) hu
      simpa [blankLine, List.getElem?_append, hlt, Nat.sub_pos_of_lt hlt] using this.symm
    exact h (List.mem_of_getElem? h0)
  · rw [List.drop_eq_nil_of_le hge, List.nil_append] at hp
    have hj2 : j - l.length < 2 := by simp [crlf] at hj; omega
    interval_cases j - l.length
    · refine hs ?_
      simpa [blankLine, crlf] using hp
    · simp [blankLine, crlf] at hp

theorem find_blankLine_line {l s : Str} {i : ℕ} (h : 13 ∉ l) (hs : ¬ crlf <+: s) (hi : find blankLine s = some i) :
    find blankLine (l ++ crlf ++ s) = some ((l ++ crlf).length + i) :=
  find_skip (not_blankLine_at h hs) hi

theorem not_crlf_at {l s : Str} (h : 13 ∉ l) (hl : l ≠ []) : ¬ crlf <+: l ++ s := by
  cases l with
  | nil => exact absurd rfl hl
  | cons b l =>
    intro hp
    have : (13 : UInt8) = b := by simpa using (List.cons_prefix_cons.1 hp).1
    exact h (by simp [this])

/-- **The blank line of a head.** It is the first one, whatever the body holds. -/
theorem find_blankLine {ls : List Str} (h : ∀ l ∈ ls, 13 ∉ l ∧ l ≠ []) (hne : ls ≠ []) (body : Str) :
    find blankLine (joinLines ls ++ crlf ++ body) = some ((joinLines ls).length - 2) := by
  induction ls with
  | nil => exact absurd rfl hne
  | cons l ls ih =>
    obtain ⟨hl, -⟩ := h l List.mem_cons_self
    cases ls with
    | nil =>
      -- the last line: the blank line begins at its own CRLF
      refine find_eq_some.2 ⟨by simp [crlf], ?_, fun j hj => ?_⟩
      · simp [crlf, blankLine]
      · intro hp
        obtain ⟨u, hu⟩ := hp
        have hlt : j < l.length := by simpa [crlf] using hj
        have h0 : l[j]? = some 13 := by
          have := congrArg (·[0]?) hu
          simpa [blankLine, List.getElem?_append, hlt, List.drop_append, Nat.sub_pos_of_lt hlt] using this.symm
        exact hl (List.mem_of_getElem? h0)
    | cons l' ls =>
      obtain ⟨hl', hl0⟩ := h l' (by simp)
      have hrest := ih (fun x hx => h x (List.mem_cons_of_mem l hx)) (by simp)
      have hs : ¬ crlf <+: joinLines (l' :: ls) ++ crlf ++ body := by
        rw [joinLines_cons]; simpa only [List.append_assoc] using not_crlf_at hl' hl0
      rw [joinLines_cons, List.append_assoc _ (joinLines _), List.append_assoc (l ++ crlf),
        find_blankLine_line hl hs hrest]
      simp [crlf]; omega

/-! ## What the receiver reads -/

/-- the bytes after the first blank line -/
def bodyOf (r : Str) : Option Str := (find blankLine r).map fun i => r.drop (i + 4)

/-- the header lines: those between the first line and the first blank line -/
def headerLines (r : Str) : Option (List Str) := (find blankLine r).map fun i => (splitLines (r.take (i + 2))).tail

/-- the value of the first header line of this name -/
def headerValue (name r : Str) : Option Str :=
  (headerLines r).bind fun ls =>
    (ls.find? fun l => (name ++ ascii ": ").isPrefixOf l).map fun l => l.drop (name.length + 2)

/-- the body is as long as the Content-Length header says -/
def Framed (r : Str) : Prop :=
  ∃ v b, headerValue (ascii "Content-Length") r = some v ∧ bodyOf r = some b ∧
    v ≠ [] ∧ (∀ d ∈ v, isDigit d = true) ∧ decValue v = b.length

theorem bodyOf_head {ls : List Str} (h : ∀ l ∈ ls, 13 ∉ l ∧ l ≠ []) (hne : ls ≠ []) (body : Str) :
    bodyOf (joinLines ls ++ crlf ++ body) = some body := by
  have hlen : 2 ≤ (joinLines ls).length := by
    cases ls with
    | nil => exact absurd rfl hne
    | cons l ls => simp [crlf]; omega
  rw [bodyOf, find_blankLine h hne, Option.map_some, Option.some.injEq,
    show (joinLines ls).length - 2 + 4 = (joinLines ls ++ crlf).length by simp [crlf]; omega, List.drop_left]

theorem headerLines_head {l : Str} {ls : List Str} (h : ∀ x ∈ l :: ls, 13 ∉ x ∧ x ≠ []) (body : Str) :
    headerLines (joinLines (l :: ls) ++ crlf ++ body) = some (ls ++ [[]]) := by
  have hlen : 2 ≤ (joinLines (l :: ls)).length := by simp [crlf]; omega
  rw [headerLines, find_blankLine h (by simp), Option.map_some, Option.some.injEq, Nat.sub_add_cancel hlen,
    List.append_assoc, List.take_left, splitLines_joinLines fun x hx => (h x hx).1]
  rfl

end AirobotMsgd.HttpText
