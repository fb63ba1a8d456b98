/-
`http_parser` (source/http_parser.cpp): the head of a request, parsed from a C string into a `std::map` of options.

`none` is a read out of range: the loop that strips the '/' from the end of a URI reads `uri[uri.size()-1]` also when
nothing is left of it. The request-line pattern `([a-zA-Z]+)[ ]+([^ ]+)([ ]+(.*))?` has at most one match, since its
parts are separated by the class of their bytes; `requestLine` reads that match off.

Results:
- `parseRequest_head`: where the text begins with a head, what `parse_request` makes of it depends on that head alone,
  but for the value of `request_body_`.
- `requestOption_agree`: so does every option other than `request_body_`, in any letter case.
- `parseRequest_succeeds`: the parse of a head without an all-'/' URI succeeds.
-/
import AirobotMsgd.Wire.Reply

namespace AirobotMsgd.HttpParser

open AirobotMsgd.Bytes AirobotMsgd.HttpText AirobotMsgd.HttpProto

/-- `header_opts_` -/
abbrev HeaderOpts := List (Str × Str)

/-- the items `std::getline` gives -/
def getlines : Str → List Str
  | [] => []
  | b :: s =>
    if b = 10 then [] :: getlines s
    else match getlines s with
      | [] => [[b]]
      | l :: ls => (b :: l) :: ls

/-- the three groups of a match of `([a-zA-Z]+)[ ]+([^ ]+)([ ]+(.*))?` -/
def requestLine (item : Str) : Option (Str × Str × Str) :=
  let method := item.takeWhile isAlpha
  let rest := item.dropWhile isAlpha
  let blanks := rest.takeWhile (· == 32)
  let rest := rest.dropWhile (· == 32)
  let uri := rest.takeWhile (· != 32)
  let version := rest.dropWhile (· != 32)
  if method = [] ∨ blanks = [] ∨ uri = [] then none else some (method, uri, version)

/-- `while (uri[uri.size()-1] == '/') uri = uri.substr(0, uri.size()-1)`; with nothing left, the index is out of
range -/
def stripSlashes (uri : Str) : Option Str :=
  let uri := uri.rdropWhile (· == 47)
  if uri = [] then none else some uri

/-- the body of the loop over the lines -/
def parseItem (opts : HeaderOpts) (item : Str) : Option HeaderOpts :=
  match find [58] item with
  | some index => some (mapInsert (trim (item.take index)) (trim (item.drop (index + 1))) opts)
  | none =>
    match requestLine item with
    | none => some opts
    | some (method, uri, version) =>
      (stripSlashes (trim uri)).map fun uri =>
        mapInsert HeaderOptions.httpVersion (trim version)
          (mapInsert HeaderOptions.requestUri uri
            (mapInsert HeaderOptions.requestMethod (trim (toUpperCopy method)) opts))

/-- the loop over the lines -/
def parseItems (opts : HeaderOpts) : List Str → Option HeaderOpts
  | [] => some opts
  | item :: items => if item = [13] then some opts else (parseItem opts item).bind (parseItems · items)

/-- `parse_request`: its result, and `header_opts_` after it -/
def parseRequest (opts : HeaderOpts) (ptr : Str) : Option (Bool × HeaderOpts) :=
  match find blankLine ptr with
  | none => some (false, opts)
  | some index =>
    (parseItems (mapInsert HeaderOptions.requestBody (ptr.drop (index + 4)) [])
      (getlines (ptr.take (index + 4)))).map fun opts => (true, opts)

/-- `request_option` -/
def requestOption (opts : HeaderOpts) (optionName : Str) : Str :=
  if optionName = [] then []
  else ((opts.find? fun item => iequals optionName item.1).map (·.2)).getD []

/-! ## A head decides its options -/

/-- a head: the text up to its first blank line -/
def IsHead (head : Str) : Prop := find blankLine head = some (head.length - 4)

instance (head : Str) : Decidable (IsHead head) := inferInstanceAs (Decidable (_ = _))

theorem IsHead.length {head : Str} (h : IsHead head) : head.length - 4 + 4 = head.length := by
  obtain ⟨-, hp, -⟩ := find_eq_some.1 h
  have := hp.length_le
  simp [blankLine] at this
  omega

/-- a key other than `request_body_` -/
def NotBody (k : Str) : Prop := k ≠ HeaderOptions.requestBody

theorem parseItem_agree {o o' : HeaderOpts} (h : AgreeOn NotBody o o') (item : Str) :
    Option.Rel (AgreeOn NotBody) (parseItem o item) (parseItem o' item) := by
  unfold parseItem
  cases find [58] item with
  | some index => exact .some (h.mapInsert _ _)
  | none =>
    cases requestLine item with
    | none => exact .some h
    | some l =>
      obtain ⟨method, uri, version⟩ := l
      dsimp only
      cases stripSlashes (trim uri) with
      | none => exact .none
      | some u => exact .some (((h.mapInsert _ _).mapInsert _ _).mapInsert _ _)

theorem parseItems_agree {o o' : HeaderOpts} (h : AgreeOn NotBody o o') (items : List Str) :
    Option.Rel (AgreeOn NotBody) (parseItems o items) (parseItems o' items) := by
  induction items generalizing o o' with
  | nil => exact .some h
  | cons item items ih =>
    unfold parseItems
    split_ifs
    · exact .some h
    · have hi := parseItem_agree h item
      generalize parseItem o item = r at hi
      generalize parseItem o' item = r' at hi
      cases hi with
      | none => exact .none
      | some hp => exact ih hp

/-- **The head decides.** Whatever follows a head, and whatever was parsed before, the options are those of the head
alone, but for `request_body_`. -/
theorem parseRequest_head {head : Str} (hh : IsHead head) (opts opts' : HeaderOpts) (extra : Str) :
    Option.Rel (fun r r' => r.1 = true ∧ r'.1 = true ∧ AgreeOn NotBody r.2 r'.2)
      (parseRequest opts (head ++ extra)) (parseRequest opts' head) := by
  have htake : (head ++ extra).take head.length = head := List.take_left
  simp only [parseRequest, find_append hh extra, hh.length, htake]
  rw [show find blankLine head = some (head.length - 4) from hh]
  simp only [hh.length, List.take_length]
  have h0 : AgreeOn NotBody (mapInsert HeaderOptions.requestBody ((head ++ extra).drop head.length) [])
      (mapInsert HeaderOptions.requestBody (head.drop head.length) []) :=
    .cons ⟨rfl, fun h => absurd rfl h⟩ .nil
  have h := parseItems_agree h0 (getlines head)
  generalize parseItems (mapInsert _ ((head ++ extra).drop head.length) []) _ = r at h
  generalize parseItems (mapInsert _ (head.drop head.length) []) _ = r' at h
  cases h with
  | none => exact .none
  | some h => exact .some ⟨rfl, rfl, h⟩

/-- the item is read as a request line, and its trimmed URI has no byte other than '/' -/
def AllSlashUri (item : Str) : Prop :=
  find [58] item = none ∧ ∃ method uri version, requestLine item = some (method, uri, version) ∧ ∀ b ∈ trim uri, b = 47

theorem stripSlashes_eq_none {uri : Str} : stripSlashes uri = none ↔ ∀ b ∈ uri, b = 47 := by
  simp [stripSlashes, List.rdropWhile_eq_nil_iff]

theorem parseItem_eq_none {opts : HeaderOpts} {item : Str} : parseItem opts item = none ↔ AllSlashUri item := by
  unfold parseItem AllSlashUri
  cases find [58] item with
  | some index => simp
  | none =>
    cases requestLine item with
    | none => simp
    | some l =>
      obtain ⟨method, uri, version⟩ := l
      simp [stripSlashes_eq_none]

instance (item : Str) : Decidable (AllSlashUri item) := decidable_of_iff (parseItem [] item = none) parseItem_eq_none

/-- a loop that stops does so in a line it reads -/
theorem parseItems_eq_none {items : List Str} {opts : HeaderOpts} (h : parseItems opts items = none) :
    ∃ item ∈ items.takeWhile (· ≠ [13]), AllSlashUri item := by
  induction items generalizing opts with
  | nil => cases h
  | cons item items ih =>
    unfold parseItems at h
    split_ifs at h with hcr
    rw [List.takeWhile_cons_of_pos (by simpa using hcr)]
    cases hitem : parseItem opts item with
    | none => exact ⟨item, List.mem_cons_self, parseItem_eq_none.1 hitem⟩
    | some o =>
      rw [hitem, Option.bind_some] at h
      obtain ⟨i, hi, hslash⟩ := ih h
      exact ⟨i, List.mem_cons_of_mem item hi, hslash⟩

theorem parseItems_ne_none {items : List Str} (h : ∀ item ∈ items, ¬ AllSlashUri item) (opts : HeaderOpts) :
    parseItems opts items ≠ none := by
  intro hnone
  obtain ⟨item, hitem, hslash⟩ := parseItems_eq_none hnone
  exact h item (List.takeWhile_subset _ hitem) hslash

/-- a head none of whose lines carries an all-'/' URI is parsed -/
theorem parseRequest_succeeds {head : Str} (hh : IsHead head) (h : ∀ item ∈ getlines head, ¬ AllSlashUri item)
    (opts : HeaderOpts) : ∃ o, parseRequest opts head = some (true, o) := by
  rw [parseRequest, show find blankLine head = some (head.length - 4) from hh]
  simp only [hh.length, List.take_length]
  obtain ⟨o, ho⟩ := Option.ne_none_iff_exists'.1
    (parseItems_ne_none h (mapInsert HeaderOptions.requestBody (head.drop head.length) []))
  exact ⟨o, by rw [ho, Option.map_some]⟩

theorem requestOption_agree {o o' : HeaderOpts} (h : AgreeOn NotBody o o') {name : Str}
    (hn : iequals name HeaderOptions.requestBody = false) : requestOption o name = requestOption o' name := by
  unfold requestOption
  rw [h.find (q := fun k => iequals name k)]
  rintro k hk rfl
  rw [hn] at hk
  exact absurd hk (by simp)

end AirobotMsgd.HttpParser
