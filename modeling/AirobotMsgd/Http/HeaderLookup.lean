/-
What a look-up in the parsed options finds, against what the message says (source/http_parser.cpp).

A line with a ':' gives one option. A line without one that has the form of a request line gives the three
pseudo-options `request_method_`, `request_uri_` and `http_version_`, whichever line of the head it is. They share one
map: a key keeps its first value, and `request_option` takes the first key in the order of the map that is the name up to
letter case, upper-case letters coming before lower-case ones.

Results:
- `requestOption_eq_scan`: the look-up, read off the lines.
- `follows_iff_unequivocal`: a header look-up gives what the first line of that name says exactly when the first line
  with the least spelling of the name says the same; with one spelling it does (`unequivocal_of_one_spelling`).
- `decides_iff_undisturbed`: the first line decides the pseudo-options exactly when no line is read in its place that
  says something else; a request line without a ':' does, if no header has the name of a pseudo-option
  (`undisturbed_of_plain`).
- `lesser_spelling_wins`, `colon_in_uri`: a head with two spellings of Content-Length, and a URI with a ':'.
-/
import AirobotMsgd.Core.StringMap
import AirobotMsgd.Http.HttpParser
import Mathlib.Data.FinEnum

namespace AirobotMsgd.HttpParser

open AirobotMsgd.Bytes AirobotMsgd.HttpText AirobotMsgd.HttpProto AirobotMsgd.StringMap

/-! ## The lines and their options -/

/-- the lines of the head -/
def headLines (ptr : Str) : List Str := getlines (ptr.take ((find blankLine ptr).getD 0 + 4))

/-- the lines the loop reads: it stops at a line that is only a CR -/
def readLines (ptr : Str) : List Str := (headLines ptr).takeWhile (· ≠ [13])

/-- the name and the value of a line with a ':' -/
def headerField (item : Str) : Option (Str × Str) :=
  (find [58] item).map fun index => (trim (item.take index), trim (item.drop (index + 1)))

/-- the pseudo-options of a line without a ':' -/
def pseudoOptions (item : Str) : HeaderOpts :=
  match requestLine item with
  | none => []
  | some (method, uri, version) =>
    [(HeaderOptions.requestMethod, trim (toUpperCopy method)),
      (HeaderOptions.requestUri, (trim uri).rdropWhile (· == 47)), (HeaderOptions.httpVersion, trim version)]

/-- the options a line gives -/
def itemOptions (item : Str) : HeaderOpts :=
  match headerField item with
  | some field => [field]
  | none => pseudoOptions item

/-- the options the lines give, in their order -/
def lineOptions (ptr : Str) : HeaderOpts := (readLines ptr).flatMap itemOptions

theorem parseItem_insertAll {opts o : HeaderOpts} {item : Str} (h : parseItem opts item = some o) :
    o = insertAll opts (itemOptions item) := by
  unfold parseItem at h
  unfold itemOptions headerField pseudoOptions
  cases hf : find [58] item with
  | some index =>
    rw [hf, Option.some.injEq] at h
    exact h.symm
  | none =>
    rw [hf] at h
    cases hl : requestLine item with
    | none =>
      rw [hl, Option.some.injEq] at h
      exact h.symm
    | some l =>
      obtain ⟨method, uri, version⟩ := l
      rw [hl] at h
      obtain ⟨u, hu, rfl⟩ := Option.map_eq_some_iff.1 h
      obtain ⟨-, rfl⟩ : _ ∧ (trim uri).rdropWhile (· == 47) = u := by simpa [stripSlashes] using hu
      rfl

theorem parseItems_insertAll {items : List Str} {opts o : HeaderOpts} (h : parseItems opts items = some o) :
    o = insertAll opts ((items.takeWhile (· ≠ [13])).flatMap itemOptions) := by
  induction items generalizing opts with
  | nil => simpa [parseItems, insertAll, eq_comm] using h
  | cons item items ih =>
    unfold parseItems at h
    split_ifs at h with hcr
    · simpa [hcr, insertAll, eq_comm] using h
    · obtain ⟨o', ho', ho⟩ := Option.bind_eq_some_iff.1 h
      rw [ih ho, parseItem_insertAll ho', List.takeWhile_cons_of_pos (by simpa using hcr), List.flatMap_cons,
        insertAll_append]

/-- **The look-up, read off the lines.** -/
theorem requestOption_eq_scan {opts o : HeaderOpts} {ptr name : Str} (h : parseRequest opts ptr = some (true, o))
    (hname : name ≠ []) (hbody : iequals name HeaderOptions.requestBody = false) :
    requestOption o name = ((scan (iequals name) (lineOptions ptr)).map (·.2)).getD [] := by
  unfold parseRequest at h
  cases hf : find blankLine ptr with
  | none => simp [hf] at h
  | some index =>
    rw [hf] at h
    obtain ⟨o', ho', heq⟩ := Option.map_eq_some_iff.1 h
    obtain rfl : o' = o := congrArg Prod.snd heq
    have hlines : getlines (ptr.take (index + 4)) = headLines ptr := by rw [headLines, hf, Option.getD_some]
    have ho := parseItems_insertAll ho'
    rw [hlines] at ho
    -- the entry of the body, which comes first, is not the one asked for
    have hfind := find_insertAll (m := mapInsert HeaderOptions.requestBody (ptr.drop (index + 4)) [])
      (mapInsert_sorted List.Pairwise.nil _ _) (iequals name) (lineOptions ptr)
    rw [find_mapInsert List.Pairwise.nil, if_neg (by simp [hbody]), List.find?_nil, none_lesser] at hfind
    rw [requestOption, if_neg hname, ho, ← hfind]
    rfl

/-! ## Headers -/

/-- what the first line of the head with this name says -/
def firstValue (name ptr : Str) : Str :=
  ((((headLines ptr).filterMap headerField).find? fun e => iequals name e.1).map (·.2)).getD []

def pseudoNames : List Str :=
  [HeaderOptions.requestMethod, HeaderOptions.requestUri, HeaderOptions.httpVersion, HeaderOptions.requestBody]

theorem pseudoOptions_names {item : Str} {e : Str × Str} (he : e ∈ pseudoOptions item) : e.1 ∈ pseudoNames := by
  unfold pseudoOptions at he
  cases hl : requestLine item with
  | none => simp [hl] at he
  | some l =>
    rw [hl] at he
    simp only [List.mem_cons, List.not_mem_nil, or_false] at he
    rcases he with rfl | rfl | rfl <;> simp [pseudoNames]

/-- for a name that is none of the pseudo-options, the header lines are all there is -/
theorem scan_lineOptions {name : Str} (hpseudo : ∀ n ∈ pseudoNames, iequals name n = false) (ptr : Str) :
    scan (iequals name) (lineOptions ptr) = scan (iequals name) ((readLines ptr).filterMap headerField) := by
  apply scan_congr
  unfold lineOptions
  induction readLines ptr with
  | nil => rfl
  | cons item items ih =>
    rw [List.flatMap_cons, List.filter_append, ih, List.filterMap_cons, itemOptions]
    cases headerField item with
    | some field => exact (List.filter_append [field] _).symm
    | none =>
      have hnil : (pseudoOptions item).filter (fun e => iequals name e.1) = [] := by
        rw [List.filter_eq_nil_iff]
        intro e he
        simp [hpseudo e.1 (pseudoOptions_names he)]
      rw [hnil, List.nil_append]

/-- of the lines that are read, the first one with the least spelling of the name says what the first line of the head
with the name says -/
def Unequivocal (name ptr : Str) : Prop :=
  Reads (iequals name) ((readLines ptr).filterMap headerField) [] (firstValue name ptr)

/-- one spelling of the name, and no header behind a lone CR -/
theorem unequivocal_of_one_spelling {name spelling ptr : Str}
    (hcr : (headLines ptr).filterMap headerField = (readLines ptr).filterMap headerField)
    (h : ∀ e ∈ (headLines ptr).filterMap headerField, iequals name e.1 = true → e.1 = spelling) :
    Unequivocal name ptr := by
  apply reads_iff.1
  rw [hcr] at h
  rw [firstValue, hcr, scan_eq_find h]

/-- **When a header look-up follows the message.** The value is that of the first line of the head with the name if and
only if that is what the first line with the least spelling of the name says, among the lines the loop reads. -/
theorem follows_iff_unequivocal {opts o : HeaderOpts} {ptr name : Str} (h : parseRequest opts ptr = some (true, o))
    (hname : name ≠ []) (hpseudo : ∀ n ∈ pseudoNames, iequals name n = false) :
    requestOption o name = firstValue name ptr ↔ Unequivocal name ptr := by
  rw [requestOption_eq_scan h hname (hpseudo _ (by simp [pseudoNames])), scan_lineOptions hpseudo, reads_iff]
  rfl

theorem follows_iff_unequivocal_length :
    ∃ o, parseRequest [] (ascii "POST /aa HTTP/1.1\r\nContent-Length: 2\r\n\r\n") = some (true, o) ∧
      (requestOption o HeaderOptions.contentLength =
          firstValue HeaderOptions.contentLength (ascii "POST /aa HTTP/1.1\r\nContent-Length: 2\r\n\r\n") ↔
        Unequivocal HeaderOptions.contentLength (ascii "POST /aa HTTP/1.1\r\nContent-Length: 2\r\n\r\n")) :=
  ⟨_, rfl, @follows_iff_unequivocal [] _ _ _ rfl (by decide) (by decide)⟩

/-- **The lesser spelling wins.** The first Content-Length of this head is 5, and the body is sized by the other one. -/
theorem lesser_spelling_wins :
    ∃ o, parseRequest [] (ascii "POST /aa HTTP/1.1\r\ncontent-length: 5\r\nContent-Length: 2\r\n\r\n") =
        some (true, o) ∧
      requestOption o HeaderOptions.contentLength ≠
        firstValue HeaderOptions.contentLength
          (ascii "POST /aa HTTP/1.1\r\ncontent-length: 5\r\nContent-Length: 2\r\n\r\n") :=
  ⟨_, rfl, by decide +kernel⟩

/-! ## The request line -/

/-- neither a blank nor a control character -/
def isGraph (b : UInt8) : Bool := 32 < b && b != 127

/-- the first line, without its CR -/
def firstLine (ptr : Str) : Str :=
  let line := ptr.takeWhile (· ≠ 10)
  if line.getLast? = some 13 then line.dropLast else line

/-- letters, blanks, a URI that is not all '/', and after more blanks, or not at all, a version -/
def IsRequestLine (line method uri version : Str) : Prop :=
  ∃ blanks rest, line = method ++ (blanks ++ (uri ++ rest)) ∧ method ≠ [] ∧ (∀ b ∈ method, isAlpha b = true) ∧
    blanks ≠ [] ∧ (∀ b ∈ blanks, b = 32) ∧ uri ≠ [] ∧ (∀ b ∈ uri, isGraph b = true) ∧ (∃ b ∈ uri, b ≠ 47) ∧
    ((rest = [] ∧ version = []) ∨ ∃ blanks', blanks' ≠ [] ∧ (∀ b ∈ blanks', b = 32) ∧ rest = blanks' ++ version)

/-- the pseudo-options are what the line says, and empty if it is not a request line -/
structure Decides (line : Str) (o : HeaderOpts) : Prop where
  formed : ∀ method uri version, IsRequestLine line method uri version →
    requestOption o HeaderOptions.requestMethod = toUpperCopy method ∧
    requestOption o HeaderOptions.requestUri = uri.rdropWhile (· == 47) ∧
    requestOption o HeaderOptions.httpVersion = trim version
  other : (∀ method uri version, ¬ IsRequestLine line method uri version) →
    requestOption o HeaderOptions.requestMethod = [] ∧ requestOption o HeaderOptions.requestUri = [] ∧
    requestOption o HeaderOptions.httpVersion = []

/-- what the line says -/
def said (line : Str) : HeaderOpts :=
  match requestLine line with
  | none => []
  | some (method, uri, version) =>
    if (∀ b ∈ uri, isGraph b = true) ∧ ∃ b ∈ uri, b ≠ 47 then
      [(HeaderOptions.requestMethod, toUpperCopy method), (HeaderOptions.requestUri, uri.rdropWhile (· == 47)),
        (HeaderOptions.httpVersion, trim version)]
    else []

theorem isGraph_ne_blank {b : UInt8} (h : isGraph b = true) : b ≠ 32 := by
  rintro rfl
  exact absurd h (by decide)

theorem trim_blanks {blanks : Str} (h : ∀ b ∈ blanks, b = 32) (s : Str) : trim (blanks ++ s) = trim s := by
  rw [trim, List.dropWhile_append_of_pos fun b hb => by rw [h b hb]; rfl, trim]

/-- a part whose bytes pass a test, before a byte that does not -/
theorem takeWhile_part {q : UInt8 → Bool} {s t : Str} (hs : ∀ b ∈ s, q b = true) (ht : ∀ b ∈ t.head?, q b = false) :
    (s ++ t).takeWhile q = s ∧ (s ++ t).dropWhile q = t := by
  rw [List.takeWhile_append_of_pos hs, List.dropWhile_append_of_pos hs]
  cases t with
  | nil => simp
  | cons b t => simp [ht b rfl]

/-- a line of three parts, read off the pattern -/
theorem requestLine_parts {method blanks uri rest : Str} (hm0 : method ≠ []) (hm : ∀ b ∈ method, isAlpha b = true)
    (hb0 : blanks ≠ []) (hb : ∀ b ∈ blanks, b = 32) (hu0 : uri ≠ []) (hu : ∀ b ∈ uri, b ≠ 32)
    (hrest : ∀ b ∈ rest.head?, b = 32) :
    requestLine (method ++ (blanks ++ (uri ++ rest))) = some (method, uri, rest) := by
  have hmethod := takeWhile_part (q := isAlpha) (t := blanks ++ (uri ++ rest)) hm (by
    obtain ⟨b, bs, rfl⟩ := List.exists_cons_of_ne_nil hb0
    intro c hc
    obtain rfl : b = c := by simpa using hc
    rw [hb b List.mem_cons_self]
    rfl)
  have hblanks := takeWhile_part (q := (· == 32)) (s := blanks) (t := uri ++ rest) (fun b hbm => by simp [hb b hbm]) (by
    obtain ⟨b, bs, rfl⟩ := List.exists_cons_of_ne_nil hu0
    intro c hc
    obtain rfl : b = c := by simpa using hc
    simpa using hu b List.mem_cons_self)
  have huri := takeWhile_part (q := (· != 32)) (s := uri) (t := rest) (fun b hbm => by simpa using hu b hbm)
    (fun b hbm => by simp [hrest b hbm])
  simp only [requestLine, hmethod.1, hmethod.2, hblanks.1, hblanks.2, huri.1, huri.2]
  rw [if_neg (by simp [hm0, hb0, hu0])]

/-- the parts of a form -/
theorem IsRequestLine.parts {line method uri version : Str} (h : IsRequestLine line method uri version) :
    ∃ blanks rest, line = method ++ (blanks ++ (uri ++ rest)) ∧ blanks ≠ [] ∧ (∀ b ∈ blanks, b = 32) ∧
      (∀ b ∈ rest.head?, b = 32) ∧ trim rest = trim version := by
  obtain ⟨blanks, rest, hline, -, -, hb0, hb, -, -, -, hrest⟩ := h
  refine ⟨blanks, rest, hline, hb0, hb, ?_, ?_⟩
  · rcases hrest with ⟨rfl, -⟩ | ⟨bs, hbs0, hbs, rfl⟩
    · simp
    · obtain ⟨b, bs, rfl⟩ := List.exists_cons_of_ne_nil hbs0
      intro c hc
      obtain rfl : b = c := by simpa using hc
      exact hbs b List.mem_cons_self
  · rcases hrest with ⟨rfl, rfl⟩ | ⟨bs, -, hbs, rfl⟩
    · rfl
    · exact trim_blanks hbs version

theorem requestLine_of_form {line method uri version : Str} (h : IsRequestLine line method uri version) :
    ∃ rest, requestLine line = some (method, uri, rest) ∧ trim rest = trim version := by
  obtain ⟨blanks, rest, rfl, hb0, hb, hhead, htrim⟩ := h.parts
  obtain ⟨_, _, -, hm0, hm, -, -, hu0, hu, -⟩ := h
  exact ⟨rest, requestLine_parts hm0 hm hb0 hb hu0 (fun b hbm => isGraph_ne_blank (hu b hbm)) hhead, htrim⟩

theorem form_of_requestLine {line method uri rest : Str} (h : requestLine line = some (method, uri, rest))
    (hgraph : ∀ b ∈ uri, isGraph b = true) (hslash : ∃ b ∈ uri, b ≠ 47) :
    ∃ version, IsRequestLine line method uri version := by
  unfold requestLine at h
  dsimp only at h
  split_ifs at h with hempty
  simp only [not_or] at hempty
  obtain ⟨hm0, hb0, hu0⟩ := hempty
  simp only [Option.some.injEq, Prod.mk.injEq] at h
  obtain ⟨rfl, rfl, rfl⟩ := h
  generalize hr : line.dropWhile isAlpha = r at *
  generalize hr' : r.dropWhile (· == 32) = r' at *
  have hline : line = line.takeWhile isAlpha ++ (r.takeWhile (· == 32) ++
      (r'.takeWhile (· != 32) ++ r'.dropWhile (· != 32))) := by
    rw [List.takeWhile_append_dropWhile, ← hr', List.takeWhile_append_dropWhile, ← hr,
      List.takeWhile_append_dropWhile]
  generalize hrest : r'.dropWhile (· != 32) = rest at *
  refine ⟨rest.dropWhile (· == 32), _, rest, hline, hm0, fun b hb => List.mem_takeWhile_imp hb, hb0,
    fun b hb => by simpa using List.mem_takeWhile_imp hb, hu0, hgraph, hslash, ?_⟩
  cases rest with
  | nil => exact .inl ⟨rfl, rfl⟩
  | cons b bs =>
    -- what the URI ends at is a blank
    have hb : b = 32 := by
      have hhead := List.head?_dropWhile_not (· != 32) r'
      rw [hrest] at hhead
      simpa using hhead
    refine .inr ⟨(b :: bs).takeWhile (· == 32), by simp [hb], fun c hc => by simpa using List.mem_takeWhile_imp hc, ?_⟩
    rw [List.takeWhile_append_dropWhile]

theorem said_of_form {line method uri version : Str} (h : IsRequestLine line method uri version) :
    said line =
      [(HeaderOptions.requestMethod, toUpperCopy method), (HeaderOptions.requestUri, uri.rdropWhile (· == 47)),
        (HeaderOptions.httpVersion, trim version)] := by
  obtain ⟨rest, hl, htrim⟩ := requestLine_of_form h
  obtain ⟨_, _, -, -, -, -, -, -, hgraph, hslash, -⟩ := h
  rw [said, hl]
  dsimp only
  rw [if_pos ⟨hgraph, hslash⟩, htrim]

theorem said_of_not_form {line : Str} (h : ∀ method uri version, ¬ IsRequestLine line method uri version) :
    said line = [] := by
  unfold said
  cases hl : requestLine line with
  | none => rfl
  | some l =>
    obtain ⟨method, uri, rest⟩ := l
    dsimp only
    apply if_neg
    rintro ⟨hgraph, hslash⟩
    obtain ⟨version, hform⟩ := form_of_requestLine hl hgraph hslash
    exact h method uri version hform

/-- the pseudo-options of the request line -/
def lineNames : List Str := [HeaderOptions.requestMethod, HeaderOptions.requestUri, HeaderOptions.httpVersion]

/-- what the line says of one of them -/
def saidOf (line n : Str) : Str := (mapFind n (said line)).getD []

theorem decides_iff_said {line : Str} {o : HeaderOpts} :
    Decides line o ↔ ∀ n ∈ lineNames, requestOption o n = saidOf line n := by
  have hnames : (∀ n ∈ lineNames, requestOption o n = saidOf line n) ↔
      requestOption o HeaderOptions.requestMethod = saidOf line HeaderOptions.requestMethod ∧
      requestOption o HeaderOptions.requestUri = saidOf line HeaderOptions.requestUri ∧
      requestOption o HeaderOptions.httpVersion = saidOf line HeaderOptions.httpVersion := by
    simp [lineNames]
  rw [hnames]
  by_cases hform : ∃ method uri version, IsRequestLine line method uri version
  · obtain ⟨method, uri, version, hf⟩ := hform
    constructor
    · intro h
      simp only [saidOf, said_of_form hf]
      exact h.formed method uri version hf
    · rintro ⟨hm, hu, hv⟩
      refine ⟨?_, fun hnone => absurd hf (hnone method uri version)⟩
      intro method' uri' version' hf'
      rw [hm, hu, hv]
      simp only [saidOf, said_of_form hf']
      exact ⟨rfl, rfl, rfl⟩
  · simp only [not_exists] at hform
    simp only [saidOf, said_of_not_form hform]
    exact ⟨fun h => h.other hform, fun h => ⟨fun _ _ _ hf => absurd hf (hform _ _ _), fun _ => h⟩⟩

/-- for each pseudo-option, of the lines that are read and give it in some spelling, the first one with the least
spelling gives what the first line says -/
def Undisturbed (ptr : Str) : Prop :=
  ∀ n ∈ lineNames, Reads (iequals n) (lineOptions ptr) [] (saidOf (firstLine ptr) n)

/-! ## The first line of the head -/

theorem exists_getlines {s : Str} (h : s ≠ []) : ∃ items, getlines s = s.takeWhile (· ≠ 10) :: items := by
  induction s with
  | nil => exact absurd rfl h
  | cons b s ih =>
    unfold getlines
    by_cases hb : b = 10
    · exact ⟨getlines s, by simp [hb]⟩
    · rw [if_neg hb, List.takeWhile_cons_of_pos (by simpa using hb)]
      cases s with
      | nil => exact ⟨[], rfl⟩
      | cons c s =>
        obtain ⟨items, hitems⟩ := ih (List.cons_ne_nil c s)
        exact ⟨items, by rw [hitems]⟩

/-- the first item of the loop is the text up to the first newline -/
theorem exists_headLines {ptr : Str} {index : ℕ} (hf : find blankLine ptr = some index) :
    ∃ items, headLines ptr = ptr.takeWhile (· ≠ 10) :: items := by
  obtain ⟨hle, hprefix, -⟩ := find_eq_some.1 hf
  obtain ⟨rest, hrest⟩ := hprefix
  have hsplit : ptr = (ptr.take index ++ blankLine) ++ rest := by
    rw [List.append_assoc, hrest, List.take_append_drop]
  have htake : ptr.take (index + 4) = ptr.take index ++ blankLine := by
    rw [List.take_add, ← hrest]
    rfl
  have hnewline : ((ptr.take index ++ blankLine).takeWhile (· ≠ 10)).length ≠ (ptr.take index ++ blankLine).length := by
    intro hlen
    have hall := (List.takeWhile_prefix (· ≠ (10 : UInt8))).eq_of_length hlen
    have hmem : (10 : UInt8) ∈ (ptr.take index ++ blankLine).takeWhile (· ≠ 10) := by
      rw [hall]
      exact List.mem_append_right _ (by decide)
    simpa using List.mem_takeWhile_imp hmem
  rw [headLines, hf, Option.getD_some, htake]
  obtain ⟨items, hitems⟩ := exists_getlines (s := ptr.take index ++ blankLine) (by simp [blankLine])
  refine ⟨items, ?_⟩
  rw [hitems]
  conv_rhs => rw [hsplit, List.takeWhile_append, if_neg hnewline]

/-- with its CR or without -/
theorem firstLine_cases (ptr : Str) :
    ptr.takeWhile (· ≠ 10) = firstLine ptr ∨ ptr.takeWhile (· ≠ 10) = firstLine ptr ++ [13] := by
  unfold firstLine
  dsimp only
  split_ifs with hcr
  · exact .inr (List.dropLast_append_getLast? 13 hcr).symm
  · exact .inl rfl

theorem trim_eq_self {s : Str} (h : ∀ b ∈ s, isSpace b = false) : trim s = s := by
  have hdrop : s.dropWhile isSpace = s := by
    cases s with
    | nil => rfl
    | cons b s => rw [List.dropWhile_cons_of_neg (by simp [h b List.mem_cons_self])]
  rw [trim, hdrop, List.rdropWhile_eq_self_iff]
  intro hne
  simp [h _ (List.getLast_mem hne)]

theorem trim_cr (s : Str) : trim (s ++ [13]) = trim s := by
  rw [trim, trim, List.dropWhile_append]
  split_ifs with hempty
  · rw [List.isEmpty_iff.1 hempty]
    rfl
  · exact List.rdropWhile_concat_pos isSpace _ 13 rfl

theorem isSpace_of_isGraph {b : UInt8} (h : isGraph b = true) : isSpace b = false := by
  have hb : b ≠ 32 := isGraph_ne_blank h
  have hlt : 32 < b := by
    simp only [isGraph, Bool.and_eq_true, decide_eq_true_eq] at h
    exact h.1
  have hhigh : ¬ b ≤ 13 := UInt8.not_le.2 (UInt8.lt_trans (by decide) hlt)
  simp [isSpace, hb, hhigh]

theorem isSpace_toUpper {b : UInt8} (h : isAlpha b = true) : isSpace (toUpper b) = false := by
  have hall : ∀ n < 256, isAlpha (UInt8.ofNat n) = true → isSpace (toUpper (UInt8.ofNat n)) = false := by
    decide +kernel
  simpa using hall b.toNat b.toNat_lt (by simpa using h)

/-- a line of the form gives what it says, also with its CR -/
theorem pseudoOptions_of_form {line item method uri version : Str} (h : IsRequestLine line method uri version)
    (hitem : item = line ∨ item = line ++ [13]) : pseudoOptions item = said line := by
  obtain ⟨blanks, rest, rfl, hb0, hb, hhead, htrim⟩ := h.parts
  have hsaid := said_of_form h
  obtain ⟨_, _, -, hm0, hm, -, -, hu0, hu, -⟩ := h
  have hgraph : ∀ b ∈ uri, b ≠ 32 := fun b hbm => isGraph_ne_blank (hu b hbm)
  have hmethod : trim (toUpperCopy method) = toUpperCopy method := by
    apply trim_eq_self
    intro b hbm
    obtain ⟨a, ha, rfl⟩ := List.mem_map.1 hbm
    exact isSpace_toUpper (hm a ha)
  have huri : trim uri = uri := trim_eq_self fun b hbm => isSpace_of_isGraph (hu b hbm)
  have hline : ∃ uri' rest', requestLine item = some (method, uri', rest') ∧ trim uri' = uri ∧
      trim rest' = trim version := by
    rcases hitem with rfl | rfl
    · exact ⟨uri, rest, requestLine_parts hm0 hm hb0 hb hu0 hgraph hhead, huri, htrim⟩
    · by_cases hr : rest = []
      · -- the CR is taken into the URI
        subst hr
        refine ⟨uri ++ [13], [], ?_, (trim_cr uri).trans huri, htrim⟩
        have hmore : ∀ b ∈ uri ++ [13], b ≠ 32 := by
          intro b hbm
          rcases List.mem_append.1 hbm with hbm | hbm
          · exact hgraph b hbm
          · rw [List.mem_singleton.1 hbm]
            decide
        have hparts := requestLine_parts hm0 hm hb0 hb (List.append_ne_nil_of_left_ne_nil hu0 [13]) hmore hhead
        rw [← hparts]
        simp
      · refine ⟨uri, rest ++ [13], ?_, huri, (trim_cr rest).trans htrim⟩
        have hmore : ∀ b ∈ (rest ++ [13]).head?, b = 32 := by
          rw [List.head?_append_of_ne_nil _ hr]
          exact hhead
        have hparts := requestLine_parts hm0 hm hb0 hb hu0 hgraph hmore
        rw [← hparts]
        simp
  obtain ⟨uri', rest', hl, hu', hr'⟩ := hline
  rw [pseudoOptions, hl, hsaid]
  dsimp only
  rw [hmethod, hu', hr']

/-- the names are told apart by their letters -/
theorem eq_of_iequals_names : ∀ n ∈ lineNames, ∀ k ∈ pseudoNames, iequals n k = true → k = n := by decide +kernel

/-- a request line without a ':', and no header with the name of a pseudo-option -/
theorem undisturbed_of_plain {ptr method uri version : Str} {index : ℕ} (hf : find blankLine ptr = some index)
    (hform : IsRequestLine (firstLine ptr) method uri version) (hcolon : 58 ∉ firstLine ptr)
    (hheaders : ∀ e ∈ (readLines ptr).filterMap headerField, ∀ n ∈ lineNames, iequals n e.1 = false) :
    Undisturbed ptr := by
  obtain ⟨items, hitems⟩ := exists_headLines hf
  have hitem := firstLine_cases ptr
  generalize ptr.takeWhile (· ≠ 10) = item at hitems hitem
  have hoptions : itemOptions item = said (firstLine ptr) := by
    have hnone : find [58] item = none := by
      apply find_byte_none
      rcases hitem with rfl | rfl
      · exact hcolon
      · simpa using hcolon
    rw [itemOptions, headerField, hnone]
    exact pseudoOptions_of_form hform hitem
  have hcr : item ≠ [13] := by
    -- a line that is only a CR is not of the form
    intro hcr
    have hnil : itemOptions [13] = [] := rfl
    have hsaid := said_of_form hform
    rw [← hoptions, hcr, hnil] at hsaid
    exact absurd hsaid (List.cons_ne_nil _ _).symm
  have hread : readLines ptr = item :: items.takeWhile (· ≠ [13]) := by
    rw [readLines, hitems, List.takeWhile_cons_of_pos (by simpa using hcr)]
  intro n hn
  have hspelling : ∀ e ∈ lineOptions ptr, iequals n e.1 = true → e.1 = n := by
    intro e he hname
    obtain ⟨l, hl, hel⟩ := List.mem_flatMap.1 he
    unfold itemOptions at hel
    cases hfield : headerField l with
    | some field =>
      rw [hfield, List.mem_singleton] at hel
      have hmem := List.mem_filterMap.2 ⟨l, hl, hfield⟩
      rw [hel, hheaders field hmem n hn] at hname
      exact absurd hname (by simp)
    | none =>
      rw [hfield] at hel
      exact eq_of_iequals_names n hn e.1 (pseudoOptions_names hel) hname
  apply reads_iff.1
  rw [scan_eq_find hspelling, lineOptions, hread, List.flatMap_cons, hoptions, saidOf, said_of_form hform]
  simp only [lineNames, List.mem_cons, List.not_mem_nil, or_false] at hn
  rcases hn with rfl | rfl | rfl <;> rfl

/-- **When the request line alone decides.** -/
theorem decides_iff_undisturbed {opts o : HeaderOpts} {ptr : Str} (h : parseRequest opts ptr = some (true, o)) :
    Decides (firstLine ptr) o ↔ Undisturbed ptr := by
  rw [decides_iff_said]
  apply forall₂_congr
  intro n hn
  have hn0 : n ≠ [] ∧ iequals n HeaderOptions.requestBody = false := by
    revert n
    decide
  rw [requestOption_eq_scan h hn0.1 hn0.2, reads_iff]

theorem decides_iff_undisturbed_post :
    ∃ o, parseRequest [] (ascii "POST /aa/ HTTP/1.1\r\nContent-Length: 2\r\n\r\n") = some (true, o) ∧
      (Decides (firstLine (ascii "POST /aa/ HTTP/1.1\r\nContent-Length: 2\r\n\r\n")) o ↔
        Undisturbed (ascii "POST /aa/ HTTP/1.1\r\nContent-Length: 2\r\n\r\n")) :=
  ⟨_, rfl, @decides_iff_undisturbed [] _ _ rfl⟩

/-- **A colon in the URI.** The line is taken for a header, and the method is empty. -/
theorem colon_in_uri :
    ∃ o, parseRequest [] (ascii "POST /aa?t=1:2 HTTP/1.1\r\n\r\n") = some (true, o) ∧
      ¬ Decides (firstLine (ascii "POST /aa?t=1:2 HTTP/1.1\r\n\r\n")) o := by
  refine ⟨_, rfl, ?_⟩
  intro h
  have hform : IsRequestLine (ascii "POST /aa?t=1:2 HTTP/1.1") (ascii "POST") (ascii "/aa?t=1:2") (ascii "HTTP/1.1") :=
    ⟨[32], ascii " HTTP/1.1", rfl, by decide, by decide +kernel, by decide, by simp, by decide,
      by decide +kernel, by decide +kernel, .inr ⟨[32], by decide, by simp, rfl⟩⟩
  exact absurd (h.formed _ _ _ hform).1 (by decide +kernel)

end AirobotMsgd.HttpParser
