/-
Every index `parse_request` uses (source/http_parser.cpp).

`parseRequestIdx` is the parser with its accesses, in order: each position given to `substr` and each index given to
`operator[]`, with the size of the string it is used on. `uri.size()-1` is computed in `size_t`, so it wraps where
nothing is left of the URI; the loop stops there, since what it would read is undefined.

Results:
- `slashLoop_eq`: the loop that strips the '/' from the end of a URI ends, with what `stripSlashes` gives.
- `parseRequestIdx_eq`: the parser with its accesses gives what `parse_request` gives.
- `safe_iff_noBareSlash`: every access is in range, and every URI is what its line says without the '/' at its end,
  exactly when no request line that is read has a URI of nothing but '/'.
- `bare_slash_wraps`: `POST /`.
-/
import AirobotMsgd.Http.HeaderLookup

namespace AirobotMsgd.HttpParser

open AirobotMsgd.Bytes AirobotMsgd.HttpText AirobotMsgd.HttpProto

inductive Access where
  /-- `substr(pos, ..)` of a string of this size -/
  | substr (pos size : ℕ)
  /-- `operator[]` of a string of this size -/
  | index (i size : ℕ)
deriving DecidableEq, Repr

def Access.InRange : Access → Prop
  | .substr pos size => pos ≤ size
  | .index i size => i < size

instance : (a : Access) → Decidable a.InRange
  | .substr pos size => inferInstanceAs (Decidable (pos ≤ size))
  | .index i size => inferInstanceAs (Decidable (i < size))

/-- `uri.size()-1` -/
def lastIndex (uri : Str) : ℕ := if uri = [] then 2 ^ 64 - 1 else uri.length - 1

theorem lastIndex_lt {uri : Str} (h : uri ≠ []) : lastIndex uri < uri.length := by
  have := List.length_pos_iff.2 h
  rw [lastIndex, if_neg h]
  omega

/-- `while (uri[uri.size()-1] == '/') uri = uri.substr(0, uri.size()-1)`: the accesses, and the URI it ends with -/
def slashLoop (uri : Str) : List Access × Option Str :=
  if h : uri = [] then ([.index (lastIndex uri) uri.length], none)
  else if uri.getLast h = 47 then
    let (accesses, result) := slashLoop uri.dropLast
    (.index (lastIndex uri) uri.length :: .substr 0 uri.length :: accesses, result)
  else ([.index (lastIndex uri) uri.length], some uri)
termination_by uri.length
decreasing_by
  rw [List.length_dropLast]
  exact Nat.sub_lt (List.length_pos_iff.2 h) Nat.one_pos

def parseItemIdx (opts : HeaderOpts) (item : Str) : List Access × Option HeaderOpts :=
  match find [58] item with
  | some index =>
    ([.substr 0 item.length, .substr (index + 1) item.length],
      some (mapInsert (trim (item.take index)) (trim (item.drop (index + 1))) opts))
  | none =>
    match requestLine item with
    | none => ([], some opts)
    | some (method, uri, version) =>
      let (accesses, uri) := slashLoop (trim uri)
      (accesses, uri.map fun uri =>
        mapInsert HeaderOptions.httpVersion (trim version)
          (mapInsert HeaderOptions.requestUri uri
            (mapInsert HeaderOptions.requestMethod (trim (toUpperCopy method)) opts)))

def parseItemsIdx (opts : HeaderOpts) : List Str → List Access × Option HeaderOpts
  | [] => ([], some opts)
  | item :: items =>
    if item = [13] then ([], some opts)
    else match parseItemIdx opts item with
      | (accesses, none) => (accesses, none)
      | (accesses, some opts) =>
        let (more, result) := parseItemsIdx opts items
        (accesses ++ more, result)

/-- `parse_request` with its accesses -/
def parseRequestIdx (opts : HeaderOpts) (ptr : Str) : List Access × Option (Bool × HeaderOpts) :=
  match find blankLine ptr with
  | none => ([], some (false, opts))
  | some index =>
    let (accesses, result) := parseItemsIdx (mapInsert HeaderOptions.requestBody (ptr.drop (index + 4)) [])
      (getlines (ptr.take (index + 4)))
    (.substr (index + 4) ptr.length :: .substr 0 ptr.length :: accesses, result.map fun opts => (true, opts))

/-! ## The loop over the '/' -/

theorem slashLoop_nil : slashLoop [] = ([.index (2 ^ 64 - 1) 0], none) := by
  rw [slashLoop]
  rfl

/-- **The loop ends**, and with what is left without the '/' at the end, if anything is. -/
theorem slashLoop_eq (uri : Str) : (slashLoop uri).2 = stripSlashes uri := by
  induction uri using List.reverseRecOn with
  | nil =>
    rw [slashLoop_nil]
    rfl
  | append_singleton uri b ih =>
    rw [slashLoop, dif_neg (by simp)]
    by_cases hb : b = 47
    · rw [if_pos (by simpa using hb)]
      dsimp only
      rw [List.dropLast_concat, ih, stripSlashes, stripSlashes, hb, List.rdropWhile_concat_pos _ _ _ rfl]
    · rw [if_neg (by simpa using hb), stripSlashes, List.rdropWhile_concat_neg _ _ _ (by simpa using hb)]
      simp

/-- its accesses are in range exactly when something is left -/
theorem slashLoop_inRange (uri : Str) : (∀ a ∈ (slashLoop uri).1, a.InRange) ↔ ¬ ∀ b ∈ uri, b = 47 := by
  induction uri using List.reverseRecOn with
  | nil =>
    rw [slashLoop_nil]
    simp [Access.InRange]
  | append_singleton uri b ih =>
    have hlast : (Access.index (lastIndex (uri ++ [b])) (uri ++ [b]).length).InRange := lastIndex_lt (by simp)
    have hsub : (Access.substr 0 (uri ++ [b]).length).InRange := Nat.zero_le _
    rw [slashLoop, dif_neg (by simp)]
    by_cases hb : b = 47
    · rw [if_pos (by simpa using hb)]
      dsimp only
      rw [List.dropLast_concat, List.forall_mem_cons, List.forall_mem_cons, and_iff_right hlast, and_iff_right hsub, ih,
        List.forall_mem_append, List.forall_mem_singleton, and_iff_left hb]
    · rw [if_neg (by simpa using hb), List.forall_mem_singleton]
      refine iff_of_true hlast ?_
      intro hall
      exact hb (hall b (List.mem_append_right _ (List.mem_singleton_self b)))

/-! ## The parse -/

theorem find_le {t s : Str} {i : ℕ} (h : find t s = some i) : i + t.length ≤ s.length := by
  obtain ⟨hi, hprefix, -⟩ := find_eq_some.1 h
  have hlen := hprefix.length_le
  rw [List.length_drop] at hlen
  omega

theorem parseItemIdx_eq (opts : HeaderOpts) (item : Str) : (parseItemIdx opts item).2 = parseItem opts item := by
  unfold parseItemIdx parseItem
  cases find [58] item with
  | some index => rfl
  | none =>
    cases requestLine item with
    | none => rfl
    | some l =>
      obtain ⟨method, uri, version⟩ := l
      dsimp only
      rw [slashLoop_eq]

theorem parseItemIdx_inRange (opts : HeaderOpts) (item : Str) :
    (∀ a ∈ (parseItemIdx opts item).1, a.InRange) ↔ ¬ AllSlashUri item := by
  unfold parseItemIdx AllSlashUri
  cases hf : find [58] item with
  | some index =>
    have hle : index + 1 ≤ item.length := find_le hf
    simp [Access.InRange, hle]
  | none =>
    cases requestLine item with
    | none => simp
    | some l =>
      obtain ⟨method, uri, version⟩ := l
      dsimp only
      rw [slashLoop_inRange]
      simp

theorem parseItemsIdx_eq (opts : HeaderOpts) (items : List Str) :
    (parseItemsIdx opts items).2 = parseItems opts items := by
  induction items generalizing opts with
  | nil => rfl
  | cons item items ih =>
    unfold parseItemsIdx parseItems
    split_ifs
    · rfl
    · have hitem := parseItemIdx_eq opts item
      rcases hr : parseItemIdx opts item with ⟨accesses, _ | o⟩
      · rw [hr] at hitem
        rw [← hitem]
        rfl
      · rw [hr] at hitem
        rw [← hitem, Option.bind_some, ← ih o]

/-- the accesses of the loop over the lines -/
theorem parseItemsIdx_inRange (opts : HeaderOpts) (items : List Str) :
    (∀ a ∈ (parseItemsIdx opts items).1, a.InRange) ↔ ∀ item ∈ items.takeWhile (· ≠ [13]), ¬ AllSlashUri item := by
  induction items generalizing opts with
  | nil => simp [parseItemsIdx]
  | cons item items ih =>
    unfold parseItemsIdx
    by_cases hcr : item = [13]
    · simp [hcr]
    · have hitem := parseItemIdx_inRange opts item
      have hnone : parseItem opts item = none ↔ AllSlashUri item := parseItem_eq_none
      rw [← parseItemIdx_eq] at hnone
      rw [if_neg hcr, List.takeWhile_cons_of_pos (by simpa using hcr), List.forall_mem_cons]
      rcases hr : parseItemIdx opts item with ⟨accesses, _ | o⟩
      · -- the loop stops in the URI of this line
        rw [hr] at hitem hnone
        dsimp only at hitem ⊢
        rw [hitem, iff_false_intro (not_not.2 (hnone.1 rfl)), false_and]
      · rw [hr] at hitem
        dsimp only at hitem ⊢
        rw [List.forall_mem_append, hitem, ih]

/-- **The parser with its accesses is the parser.** -/
theorem parseRequestIdx_eq (opts : HeaderOpts) (ptr : Str) :
    (parseRequestIdx opts ptr).2 = parseRequest opts ptr := by
  unfold parseRequestIdx parseRequest
  cases find blankLine ptr with
  | none => rfl
  | some index =>
    dsimp only
    rw [parseItemsIdx_eq]

/-- no line that is read is a request line whose URI, trimmed, has no byte other than '/' -/
def NoBareSlash (ptr : Str) : Prop := find blankLine ptr ≠ none → ∀ item ∈ readLines ptr, ¬ AllSlashUri item

instance (ptr : Str) : Decidable (NoBareSlash ptr) := inferInstanceAs (Decidable (_ → _))

theorem parseRequestIdx_inRange (opts : HeaderOpts) (ptr : Str) :
    (∀ a ∈ (parseRequestIdx opts ptr).1, a.InRange) ↔ NoBareSlash ptr := by
  unfold parseRequestIdx NoBareSlash
  cases hf : find blankLine ptr with
  | none => simp
  | some index =>
    have hsub : (Access.substr (index + 4) ptr.length).InRange := find_le hf
    have hhead : (Access.substr 0 ptr.length).InRange := Nat.zero_le _
    have hlines : getlines (ptr.take (index + 4)) = headLines ptr := by rw [headLines, hf, Option.getD_some]
    dsimp only
    rw [List.forall_mem_cons, List.forall_mem_cons, and_iff_right hsub, and_iff_right hhead, parseItemsIdx_inRange,
      hlines]
    exact ⟨fun h _ => h, fun h => h (Option.some_ne_none index)⟩

/-- the parse is safe: it ends, every access is in range, and each URI it reads is the captured text, trimmed, without
the '/' at its end -/
structure Safe (opts : HeaderOpts) (ptr : Str) : Prop where
  ends : ∃ result, parseRequest opts ptr = some result
  inRange : ∀ a ∈ (parseRequestIdx opts ptr).1, a.InRange
  stripped : find blankLine ptr ≠ none → ∀ item ∈ readLines ptr, find [58] item = none →
    ∀ method uri version, requestLine item = some (method, uri, version) →
      (slashLoop (trim uri)).2 = some ((trim uri).rdropWhile (· == 47))

theorem NoBareSlash.ends {ptr : Str} (h : NoBareSlash ptr) (opts : HeaderOpts) :
    ∃ result, parseRequest opts ptr = some result := by
  rw [← Option.ne_none_iff_exists']
  intro hnone
  unfold parseRequest at hnone
  cases hf : find blankLine ptr with
  | none => simp [hf] at hnone
  | some index =>
    rw [hf] at hnone
    obtain ⟨item, hitem, hslash⟩ := parseItems_eq_none (Option.map_eq_none_iff.1 hnone)
    refine h (by simp [hf]) item ?_ hslash
    rwa [readLines, headLines, hf, Option.getD_some]

theorem NoBareSlash.stripped {ptr : Str} (h : NoBareSlash ptr) (hhead : find blankLine ptr ≠ none) {item : Str}
    (hitem : item ∈ readLines ptr) (hcolon : find [58] item = none) {method uri version : Str}
    (hline : requestLine item = some (method, uri, version)) :
    (slashLoop (trim uri)).2 = some ((trim uri).rdropWhile (· == 47)) := by
  rw [slashLoop_eq, stripSlashes, if_neg]
  intro hnil
  apply h hhead item hitem
  refine ⟨hcolon, method, uri, version, hline, ?_⟩
  simpa [List.rdropWhile_eq_nil_iff] using hnil

/-- **Safe but for a URI of nothing but '/'.** Every index the parse of a text uses is in range, it ends, and every URI
is stripped of the '/' at its end, exactly when no request line that is read has a URI of which that leaves nothing. -/
theorem safe_iff_noBareSlash (opts : HeaderOpts) (ptr : Str) : Safe opts ptr ↔ NoBareSlash ptr := by
  constructor
  · intro h
    exact (parseRequestIdx_inRange opts ptr).1 h.inRange
  · intro h
    exact
      { ends := h.ends opts
        inRange := (parseRequestIdx_inRange opts ptr).2 h
        stripped := fun hhead _ hitem hcolon _ _ _ hline => h.stripped hhead hitem hcolon hline }

/-- `POST / HTTP/1.1` and a blank line -/
def barePost : Str := [80, 79, 83, 84, 32, 47, 32, 72, 84, 84, 80, 47, 49, 46, 49, 13, 10, 13, 10]

theorem slashLoop_bare : slashLoop (trim [47]) = ([.index 0 1, .substr 0 1, .index (2 ^ 64 - 1) 0], none) := by
  rw [show trim [47] = [47] by decide, slashLoop, dif_neg (by decide), if_pos (by decide), List.dropLast_singleton,
    slashLoop_nil]
  rfl

theorem parseItemIdx_bare (opts : HeaderOpts) :
    parseItemIdx opts (barePost.take 16) = ([.index 0 1, .substr 0 1, .index (2 ^ 64 - 1) 0], none) := by
  have hline : requestLine (barePost.take 16) =
      some ([80, 79, 83, 84], [47], [32, 72, 84, 84, 80, 47, 49, 46, 49, 13]) := by decide
  rw [parseItemIdx, show find [58] (barePost.take 16) = none by decide, hline]
  dsimp only
  rw [slashLoop_bare]
  rfl

/-- The root URI: the loop strips its one '/', and reads the last byte of an empty string. -/
theorem bare_slash_wraps : ¬ Safe [] barePost ∧
    parseRequestIdx [] barePost =
      ([.substr 19 19, .substr 0 19, .index 0 1, .substr 0 1, .index (2 ^ 64 - 1) 0], none) := by
  have haccesses : parseRequestIdx [] barePost =
      ([.substr 19 19, .substr 0 19, .index 0 1, .substr 0 1, .index (2 ^ 64 - 1) 0], none) := by
    have hlines : getlines (barePost.take (15 + 4)) = [barePost.take 16, [13]] := by decide
    rw [parseRequestIdx, show find blankLine barePost = some 15 by decide]
    dsimp only
    rw [hlines, parseItemsIdx, if_neg (by decide), parseItemIdx_bare]
    rfl
  refine ⟨?_, haccesses⟩
  intro h
  have hlast := h.inRange (.index (2 ^ 64 - 1) 0) (by simp [haccesses])
  exact absurd hlast (by decide)

end AirobotMsgd.HttpParser
