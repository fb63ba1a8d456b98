/-
Several values in one text, and a text that is cut off: `Json::parse_multi` (source/json11.cpp) and prefixes.

`parse_multi` reads values one after another, the blanks behind each with it. It stops at the end of the text or at the
first failure, and reports where the last value read ends. The value of a failed parse is put into the result as well.
The stop position is held as the suffix that begins there.

`strtod` reads on behind the end of a number that the parser has found: with an x or X there `0x10` may be one number to
it, and `x10` is what the next round fails on. Only the last value that is read can be such a number.

- `parseMulti_reads`: **what it gives on any text.**
- `parseMulti_lines`: values that are written one to a line are read back, up to a line that is not finished.
- `cut_rejected`: **no part of a document is one**: cut off before its last byte, a text of anything but a number is
  rejected.
-/
import AirobotMsgd.Json.Compare

namespace AirobotMsgd.Json11

open AirobotMsgd.Bytes AirobotMsgd.JsonText

/-! ## Model -/

structure ParsedMulti where
  jsonVec : List Json
  parserStopPos : ℕ
  err : Str
  errno : Bool

/-- the loop of `parse_multi`; the first argument bounds its rounds (`parseMultiLoop_bound`) -/
def parseMultiLoop : ℕ → JsonParser → List Json → Str → List Json × Str × JsonParser
  | 0, p, jsonVec, stop => (jsonVec, stop, p)
  | n + 1, p, jsonVec, stop =>
    if p.rest = [] ∨ p.failed = true then (jsonVec, stop, p)
    else
      let (value, p) := JsonParser.parseJson (maxDepth + 1) p
      let p := p.consumeGarbage
      parseMultiLoop n p (jsonVec ++ [value]) (if p.failed then stop else p.rest)

/-- `Json::parse_multi(in, parser_stop_pos, err)`, called with an empty `err` -/
def parseMulti (text : Str) (errno : Bool) : ParsedMulti :=
  let (jsonVec, stop, p) := parseMultiLoop (text.length + 1) ⟨text, [], false, errno⟩ [] text
  ⟨jsonVec, text.length - stop.length, p.err, p.errno⟩

/-! ## One round -/

open JsonParser

theorem takeWhile_blank (s : Str) : Blank (s.takeWhile isWhitespace) := fun _ hb => List.mem_takeWhile_imp hb

theorem noHex_dropWhile {s : Str} (h : NoHex (s.dropWhile isWhitespace)) : NoHex s := by
  cases s with
  | nil => exact h
  | cons b s =>
    by_cases hb : isWhitespace b = true
    · constructor <;> rintro (rfl : b = _) <;> exact absurd hb (by decide)
    · rwa [List.dropWhile_cons_of_neg hb] at h

/-- a parse that does not fail has read a document, with the blanks behind it -/
theorem round_read {p : JsonParser} (h : (parseJson (maxDepth + 1) p).2.failed = false) :
    ∃ t v errno', p.rest = t ++ (parseJson (maxDepth + 1) p).2.consumeGarbage.rest ∧ t ≠ [] ∧
      Document sem (maxDepth + 1) p.errno t v errno' ∧
      (NoHex (parseJson (maxDepth + 1) p).2.consumeGarbage.rest →
        v = (parseJson (maxDepth + 1) p).1 ∧ errno' = (parseJson (maxDepth + 1) p).2.errno) := by
  obtain ⟨w, t, v, errno', hw, hp, hD, hsame⟩ := (reads_parseJson (maxDepth + 1)).sound h
  generalize parseJson (maxDepth + 1) p = r at hp hsame ⊢
  obtain ⟨ch, rest, rfl, -, -⟩ := Value.starts hD
  refine ⟨w ++ ch :: rest ++ r.2.rest.takeWhile isWhitespace, v, errno', ?_, by simp, ⟨hw, hD, takeWhile_blank _⟩,
    fun hx => hsame (noHex_dropWhile hx)⟩
  rw [hp, consumeGarbage, List.append_assoc, List.append_assoc, List.takeWhile_append_dropWhile]

/-- us are the values of the documents read before the rest of a text: vs, but for the last one where that rest begins
with an x -/
structure ReadBefore (rest : Str) (vs us : List Json) : Prop where
  same : NoHex rest → us = vs
  last : us.dropLast = vs.dropLast ∧ us.length = vs.length

theorem ReadBefore.refl (rest : Str) (vs : List Json) : ReadBefore rest vs vs := ⟨fun _ => rfl, rfl, rfl⟩

theorem ReadBefore.cons {rest : Str} {vs us : List Json} (h : ReadBefore rest vs us) (v : Json) :
    ReadBefore rest (v :: vs) (v :: us) := by
  obtain ⟨hsame, hlast, hlen⟩ := h
  refine ⟨fun hx => by rw [hsame hx], ?_, by simpa using hlen⟩
  cases vs with
  | nil => rw [List.length_eq_zero_iff.1 hlen]
  | cons v' vs =>
    cases us with
    | nil => simp at hlen
    | cons u' us => rw [List.dropLast_cons_cons, List.dropLast_cons_cons, hlast]

/-- once a parse has failed the loop ends -/
theorem parseMultiLoop_failed (n : ℕ) {p : JsonParser} (hp : p.failed = true) (jsonVec : List Json) (stop : Str) :
    parseMultiLoop n p jsonVec stop = (jsonVec, stop, p) := by
  cases n with
  | zero => rfl
  | succ n => rw [parseMultiLoop, if_pos (.inr hp)]

theorem kind_readNumber (n : Number) (errno : Bool) : (readNumber n errno).1.kind = .number := by
  unfold readNumber readWith
  split_ifs <;> rfl

/-- only a number begins as one -/
theorem node_head {D : Denotation Json Bool} {s s' : Bool} {t : Str} {v : Json} (h : Node sem D s t v s')
    (hv : v.kind ≠ .number) : ∃ ch rest, t = ch :: rest ∧ ¬ (ch = 45 ∨ isDigit ch = true) := by
  cases h with
  | number n => exact absurd (kind_readNumber n s) hv
  | null => exact ⟨110, _, rfl, by decide⟩
  | true => exact ⟨116, _, rfl, by decide⟩
  | false => exact ⟨102, _, rfl, by decide⟩
  | string items => exact ⟨34, _, rfl, by decide⟩
  | emptyArray hw => exact ⟨91, _, rfl, by decide⟩
  | array h => exact ⟨91, _, rfl, by decide⟩
  | emptyObject hw => exact ⟨123, _, rfl, by decide⟩
  | object h => exact ⟨123, _, rfl, by decide⟩

theorem dropWhile_starts {w t tail : Str} (hw : Blank w) (ht : Starts t) :
    (w ++ (t ++ tail)).dropWhile isWhitespace = t ++ tail := by
  obtain ⟨ch, rest, rfl, hch, -⟩ := ht
  rw [dropWhile_blank hw]
  simp [isWhitespace_eq, hch]

/-- **No part of a document is one**: what is cut off before its last byte, blanks aside. -/
theorem cut_not_document {a b : Str} {v v' : Json} {errno errno' errno'' : Bool}
    (h : Document sem (maxDepth + 1) errno (a ++ b) v errno') (hv : v.kind ≠ .number) (hb : ¬ Blank b) :
    ¬ Document sem (maxDepth + 1) errno a v' errno'' := by
  intro ha
  have hr := reads_parseJson maxDepth
  generalize htext : a ++ b = text at h
  obtain @⟨w, t, w', _, _, _, hw, hD, hw'⟩ := h
  obtain @⟨x, u, x', _, _, _, hx, hE, hx'⟩ := ha
  have hsplit : w ++ (t ++ w') = x ++ (u ++ (x' ++ b)) := by simpa using htext.symm
  have hsame : t ++ w' = u ++ (x' ++ b) := by
    rw [← dropWhile_starts hw (Value.starts hD), hsplit, dropWhile_starts hx (Value.starts hE)]
  -- the text begins with no number
  obtain ⟨ch, rest, ht, hch⟩ := node_head hD hv
  have hnum : ∀ n : Number, u ≠ n.text := by
    rintro n rfl
    obtain ⟨c, more, hn, hc⟩ := n.starts
    rw [ht, hn] at hsame
    have heq : ch = c := by simpa using congrArg List.head? hsame
    exact hch (heq ▸ hc)
  have hwhole := parseJson_blank hr (p := ⟨w ++ (t ++ w'), [], false, errno⟩) hw hD (fun n hn => ?_) rfl rfl
  · have hpart := parseJson_blank hr (p := ⟨x ++ (u ++ (x' ++ b)), [], false, errno⟩) hx hE
      (fun n hn => absurd hn (hnum n)) rfl rfl
    rw [hsplit, hpart] at hwhole
    have hrest : x' ++ b = w' := by simpa using congrArg (fun r => r.2.rest) hwhole
    exact hb fun c hc => hw' c (hrest ▸ List.mem_append_right x' hc)
  · obtain ⟨c, more, hc, hcn⟩ := n.starts
    rw [ht, hc] at hn
    exact absurd (List.cons.inj hn).1 fun heq => hch (heq ▸ hcn)

/-! ## Lines -/

/-- the values, written one to a line -/
def lines (js : List Json) : Str := js.flatMap fun j => j.dump ++ [10]

theorem document_dump {j : Json} (h : Stored IsNormal j) (hlevels : j.levels ≤ maxDepth + 1) :
    Document sem (maxDepth + 1) false j.dump j.canon false :=
  padded ((value_dump h).mono hlevels)

theorem kind_canon_ne {j : Json} (h : j.kind ≠ .number) : j.canon.kind ≠ .number := by
  cases j <;> simp_all [Json.kind, Json.canon]

/-- the last byte of a text of anything but a number is no blank -/
theorem node_last {D : Denotation Json Bool} {s s' : Bool} {t : Str} {v : Json} (h : Node sem D s t v s')
    (hv : v.kind ≠ .number) : ∃ init c, t = init ++ [c] ∧ isBlank c = false := by
  cases h with
  | number n => exact absurd (kind_readNumber n s) hv
  | null => exact ⟨ascii "nul", 108, rfl, by decide⟩
  | true => exact ⟨ascii "tru", 101, rfl, by decide⟩
  | false => exact ⟨ascii "fals", 101, rfl, by decide⟩
  | string items => exact ⟨_, 34, rfl, by decide⟩
  | emptyArray hw => exact ⟨_, 93, rfl, by decide⟩
  | array h => exact ⟨_, 93, rfl, by decide⟩
  | emptyObject hw => exact ⟨_, 125, rfl, by decide⟩
  | object h => exact ⟨_, 125, rfl, by decide⟩

theorem not_blank_suffix {j : Json} (hj : Stored IsNormal j) (hlevels : j.levels ≤ maxDepth + 1)
    (hnum : j.kind ≠ .number) {a b : Str} (hcut : a ++ b = j.dump) (hb : b ≠ []) : ¬ Blank b := by
  obtain ⟨init, c, hlast, hc⟩ := node_last ((value_dump hj).mono hlevels) (kind_canon_ne hnum)
  have hmem : c ∈ b := by
    have h := congrArg List.getLast? (hcut.trans hlast)
    rw [List.getLast?_append, List.getLast?_append, List.getLast?_singleton, List.getLast?_eq_some_getLast hb] at h
    rw [← Option.some.inj h]
    exact List.getLast_mem hb
  exact fun hblank => by
    rw [hblank c hmem] at hc
    cases hc

/-- the loop over whole lines -/
theorem parseMultiLoop_lines {js : List Json} (h : ∀ j ∈ js, Stored IsNormal j ∧ j.levels ≤ maxDepth + 1) {b : Str}
    (hb : b.dropWhile isWhitespace = b) (jsonVec : List Json) {n : ℕ} (hn : (lines js ++ b).length < n) :
    ∃ m, b.length < m ∧ parseMultiLoop n ⟨lines js ++ b, [], false, false⟩ jsonVec (lines js ++ b) =
      parseMultiLoop m ⟨b, [], false, false⟩ (jsonVec ++ js.map Json.canon) b := by
  induction js generalizing jsonVec n with
  | nil => exact ⟨n, hn, by simp [lines]⟩
  | cons j js ih =>
    obtain ⟨hj, hlevels⟩ := h j List.mem_cons_self
    have hjs := fun j' hj' => h j' (List.mem_cons_of_mem j hj')
    have hvalue := (value_dump hj).mono hlevels
    obtain ⟨ch, rest, htext, hch, -⟩ := Value.starts hvalue
    have hsplit : lines (j :: js) ++ b = j.dump ++ 10 :: (lines js ++ b) := by simp [lines]
    have hends : Ends (10 :: (lines js ++ b)) := by
      simp [Ends]
      decide
    have hread := (reads_parseJson (maxDepth + 1)).complete (p := ⟨j.dump ++ 10 :: (lines js ++ b), [], false, false⟩)
      Blank.nil hvalue hends rfl rfl
    -- the next line begins with no blank
    have hnext : (lines js ++ b).dropWhile isWhitespace = lines js ++ b := by
      cases js with
      | nil => simpa [lines] using hb
      | cons j' js =>
        obtain ⟨ch', rest', htext', hch', -⟩ := Value.starts (value_dump (hjs j' List.mem_cons_self).1)
        simp [lines, htext', isWhitespace_eq, hch']
    cases n with
    | zero => omega
    | succ n =>
      rw [hsplit, List.length_append, List.length_cons] at hn
      obtain ⟨m, hm, hloop⟩ := ih hjs (jsonVec ++ [j.canon]) (n := n) (by omega)
      refine ⟨m, hm, ?_⟩
      rw [List.map_cons, List.append_cons, ← hloop, hsplit, parseMultiLoop, if_neg (by simp [htext]), hread]
      have hblank : (10 :: (lines js ++ b)).dropWhile isWhitespace = lines js ++ b := by
        rw [List.dropWhile_cons_of_pos (by decide), hnext]
      simp only [consumeGarbage, hblank, Bool.false_eq_true, if_false]

/-! ## Results -/

-- errno is set behind the first value, so 0 is no exact integer, and `strtod` reads on
example : Json.eqItems (parseMulti (ascii "1e999 0x10") false).jsonVec
    [.double (.inf false), .double (.finite false 16), .null] = true := by decide +kernel

/-- **No part of a document is read as a whole.** A text of anything but a number, cut off before its last byte, is
rejected. -/
theorem cut_rejected {a b : Str} {errno : Bool} (h : (parse (a ++ b) errno).err = [])
    (hv : (parse (a ++ b) errno).json.kind ≠ .number) (hb : ¬ Blank b) : (parse a errno).err ≠ [] :=
  fun ha => cut_not_document (accepted h) hv hb (accepted ha)

theorem cut_rejected_list : (parse (ascii "[1") false).err ≠ [] :=
  @cut_rejected (ascii "[1") (ascii "] ") false (by decide +kernel) (by decide +kernel) (by decide)

/-- **Lines are read back, up to the one that is not finished.** Where values of at most 201 levels, with no subnormal
double, are written one to a line and the text is cut off inside a further one that is no number, a parse with a clear
errno reads the whole lines, and the stop position is where the unfinished one begins. -/
theorem parseMulti_lines {js : List Json} (hjs : ∀ j ∈ js, Stored IsNormal j ∧ j.levels ≤ maxDepth + 1) {j : Json}
    (hj : Stored IsNormal j) (hlevels : j.levels ≤ maxDepth + 1) (hnum : j.kind ≠ .number) {a b : Str}
    (hcut : a ++ b = j.dump) (hb : b ≠ []) :
    let r := parseMulti (lines js ++ a) false
    r.parserStopPos = (lines js).length ∧ (r.err = [] ↔ a = []) ∧
      (a = [] → r.jsonVec = js.map Json.canon) ∧ (a ≠ [] → ∃ v, Blankish v ∧ r.jsonVec = js.map Json.canon ++ [v]) := by
  have hdoc := document_dump hj hlevels
  have hstart : a.dropWhile isWhitespace = a := by
    obtain ⟨ch, rest, htext, hch, -⟩ := Value.starts (value_dump hj)
    rw [← hcut] at htext
    cases a with
    | nil => rfl
    | cons c a =>
      obtain rfl : c = ch := (List.cons.inj htext).1
      simp [isWhitespace_eq, hch]
  obtain ⟨m, hm, hloop⟩ := parseMultiLoop_lines hjs hstart [] (Nat.lt_succ_self (lines js ++ a).length)
  obtain ⟨m, rfl⟩ : ∃ k, m = k + 1 := ⟨m - 1, by omega⟩
  simp only [parseMulti, hloop, List.nil_append]
  by_cases ha : a = []
  · subst ha
    simp [parseMultiLoop]
  · rw [parseMultiLoop, if_neg (by simp [ha])]
    have hread := @round_read ⟨a, [], false, false⟩
    have hblank := parseJson_failed (maxDepth + 1) ⟨a, [], false, false⟩
    have hadv := parseJson_advances (maxDepth + 1) ⟨a, [], false, false⟩
    generalize parseJson (maxDepth + 1) ⟨a, [], false, false⟩ = r at hread hblank hadv
    obtain ⟨value, q⟩ := r
    dsimp only at hread hblank hadv ⊢
    cases hq : q.failed with
    | false =>
      -- a document at its start would be a part of the unfinished one
      obtain ⟨t, _, _, htext, -, hpart, -⟩ := hread hq
      have hsplit : t ++ (q.consumeGarbage.rest ++ b) = j.dump := by rw [← hcut, htext, List.append_assoc]
      have hnot := not_blank_suffix hj hlevels hnum hsplit (by simp [hb])
      rw [← hsplit] at hdoc
      exact absurd hpart (cut_not_document hdoc (kind_canon_ne hnum) hnot)
    | true =>
      rw [if_pos (by simp [consumeGarbage, hq]), parseMultiLoop_failed m (p := q.consumeGarbage) hq]
      refine ⟨by simp, ?_, fun h => absurd h ha, fun _ => ⟨value, hblank hq, rfl⟩⟩
      exact iff_of_false (hadv.message rfl hq) ha

theorem parseMulti_lines_two :
    (parseMulti (ascii "null\n[true]\n[tr") false).parserStopPos = 12 := by
  have hlist : Stored IsNormal (.array [.bool true]) := .array fun v hv => by
    rw [List.mem_singleton.1 hv]
    exact .bool true
  have hjs : ∀ j ∈ [Json.null, .array [.bool true]], Stored IsNormal j ∧ j.levels ≤ maxDepth + 1 := by
    rw [List.forall_mem_cons, List.forall_mem_singleton]
    exact ⟨⟨.null, by decide⟩, hlist, by decide⟩
  have h := parseMulti_lines hjs hlist (by decide) (by decide) (show ascii "[tr" ++ ascii "ue]" = _ by decide) (by decide)
  exact h.1

end AirobotMsgd.Json11
