/-
A reply of the server, read by the server's own parser (include/reply.hpp, source/http_parser.cpp).

What `reply_generate` writes ahead of the content are lines without a newline, none of them empty, so the first blank
line is the one behind them whatever the content holds. Each header line is cut at its first ':', which is the one
behind its name; the Date may hold more of them. The status line has none, and is not of the form of a request line.

Results:
- `getlines_joinLines`: the items the loop of the parser sees.
- `parseRequest_reply`: the options are the body and the headers, in the order of the map.
- `reads_back`: every look-up in them.
-/
import AirobotMsgd.Http.HeaderLookup

namespace AirobotMsgd.HttpParser

open AirobotMsgd.Bytes AirobotMsgd.HttpText AirobotMsgd.HttpProto AirobotMsgd.Reply AirobotMsgd.StringMap

/-! ## The lines -/

theorem getlines_line {l : Str} (h : 10 ∉ l) (t : Str) : getlines (l ++ crlf ++ t) = (l ++ [13]) :: getlines t := by
  induction l with
  | nil => simp [crlf, getlines]
  | cons b l ih =>
    simp only [List.mem_cons, not_or] at h
    rw [List.cons_append, List.cons_append, getlines, if_neg (Ne.symm h.1), ih h.2]
    rfl

/-- every line keeps its CR -/
theorem getlines_joinLines {ls : List Str} (h : ∀ l ∈ ls, 10 ∉ l) (t : Str) :
    getlines (joinLines ls ++ t) = ls.map (· ++ [13]) ++ getlines t := by
  induction ls with
  | nil => rfl
  | cons l ls ih =>
    obtain ⟨hl, hls⟩ := List.forall_mem_cons.1 h
    rw [joinLines_cons, List.append_assoc, getlines_line hl, ih hls]
    rfl

/-- the headers `reply_generate` writes for n bytes of content -/
def replyHeaders (date : Str) (n : ℕ) : List Header :=
  [⟨ascii "Server", ascii "airobot_msgd/1.0"⟩, ⟨ascii "Date", date⟩, ⟨ascii "Content-Length", toDec n⟩,
    ⟨ascii "Content-Type", ascii "text/html"⟩, ⟨ascii "Connection", ascii "keep-alive"⟩,
    ⟨ascii "Access-Control-Allow-Origin", ascii "*"⟩]

theorem replyLines_eq (date : Str) (n : ℕ) : replyLines date n = (replyHeaders date n).map headerLine := rfl

/-- a value that the trimming leaves as it is, on a line of its own -/
structure Plain (value : Str) : Prop where
  noCr : 13 ∉ value
  noLf : 10 ∉ value
  trimmed : trim value = value

instance (value : Str) : Decidable (Plain value) :=
  decidable_of_iff (13 ∉ value ∧ 10 ∉ value ∧ trim value = value)
    ⟨fun h => ⟨h.1, h.2.1, h.2.2⟩, fun h => ⟨h.noCr, h.noLf, h.trimmed⟩⟩

theorem plain_toDec (n : ℕ) : Plain (toDec n) where
  noCr := toDec_no_cr n
  noLf := not_mem_toDec (by decide) n
  trimmed := trim_eq_self fun b hb => isSpace_of_isDigit (isDigit_toDec n b hb)

theorem replyHeaders_plain {date : Str} (hdate : Plain date) (n : ℕ) :
    ∀ h ∈ replyHeaders date n, Plain h.name ∧ 58 ∉ h.name ∧ Plain h.value := by
  have hconst : ∀ s ∈ [ascii "Server", ascii "airobot_msgd/1.0", ascii "Date", ascii "Content-Length",
      ascii "Content-Type", ascii "text/html", ascii "Connection", ascii "keep-alive",
      ascii "Access-Control-Allow-Origin", ascii "*"], Plain s ∧ 58 ∉ s := by decide +kernel
  have hn := plain_toDec n
  simp only [List.forall_mem_cons] at hconst
  obtain ⟨hs, hs', hd, hl, ht, ht', hc, hc', ha, ha', -⟩ := hconst
  simp only [replyHeaders, List.forall_mem_cons]
  exact ⟨⟨hs.1, hs.2, hs'.1⟩, ⟨hd.1, hd.2, hdate⟩, ⟨hl.1, hl.2, hn⟩, ⟨ht.1, ht.2, ht'.1⟩, ⟨hc.1, hc.2, hc'.1⟩,
    ⟨ha.1, ha.2, ha'.1⟩, by simp⟩

/-- a header line is cut at the ':' behind its name -/
theorem itemOptions_header {h : Header} (hname : Plain h.name) (hcolon : 58 ∉ h.name) (hvalue : Plain h.value) :
    itemOptions (headerLine h ++ [13]) = [(h.name, h.value)] := by
  have hitem : headerLine h ++ [13] = h.name ++ 58 :: ([32] ++ (h.value ++ [13])) := by
    rw [headerLine, show ascii ": " = [58, 32] from rfl]
    simp
  have hdrop : (h.name ++ 58 :: ([32] ++ (h.value ++ [13]))).drop (h.name.length + 1) = [32] ++ (h.value ++ [13]) := by
    rw [List.drop_length_add_append]
    rfl
  have htrim : trim ([32] ++ (h.value ++ [13])) = h.value := by
    rw [trim_blanks (by simp), trim_cr, hvalue.trimmed]
  rw [itemOptions, headerField, hitem, find_byte hcolon, Option.map_some, List.take_left, hdrop, htrim, hname.trimmed]

/-- a status line gives no option -/
theorem itemOptions_status {l : Str} (h : l ++ crlf ∈ Status.all) : itemOptions (l ++ [13]) = [] ∧ 10 ∉ l := by
  have hall : ∀ s ∈ Status.all, itemOptions (s.take (s.length - 2) ++ [13]) = [] ∧ 10 ∉ s.take (s.length - 2) := by
    decide +kernel
  have htake : (l ++ crlf).take ((l ++ crlf).length - 2) = l := by simp [crlf]
  have hl := hall _ h
  rwa [htake] at hl

/-- a line with three options is the only kind whose URI is looked at -/
theorem not_allSlashUri {item : Str} (h : (itemOptions item).length ≤ 1) : ¬ AllSlashUri item := by
  rintro ⟨hnone, method, uri, version, hline, -⟩
  rw [itemOptions, headerField, hnone, Option.map_none] at h
  dsimp only at h
  rw [pseudoOptions, hline] at h
  exact absurd h (by simp)

/-! ## The parse -/

/-- the options the headers give -/
def fields (date : Str) (n : ℕ) : HeaderOpts := (replyHeaders date n).map fun h => (h.name, h.value)

section
variable {date l : Str} (hstat : l ++ crlf ∈ Status.all) (hdate : Plain date) (n : ℕ)
include hstat hdate

theorem replyItems_noLf : ∀ x ∈ l :: replyLines date n, 10 ∉ x := by
  rw [replyLines_eq]
  refine List.forall_mem_cons.2 ⟨(itemOptions_status hstat).2, ?_⟩
  intro x hx
  obtain ⟨h, hh, rfl⟩ := List.mem_map.1 hx
  obtain ⟨hname, -, hvalue⟩ := replyHeaders_plain hdate n h hh
  have hsep : (10 : UInt8) ∉ ascii ": " := by decide
  simp only [headerLine, List.mem_append, not_or]
  exact ⟨⟨hname.noLf, hsep⟩, hvalue.noLf⟩

/-- what the items give, one by one -/
theorem replyItems_options :
    ((l :: replyLines date n).map (· ++ [13])).map itemOptions = [] :: (fields date n).map fun f => [f] := by
  have hheaders := replyHeaders_plain hdate n
  rw [List.map_cons, List.map_cons, (itemOptions_status hstat).1, replyLines_eq, fields, List.map_map, List.map_map,
    List.map_map]
  congr 1
  apply List.map_congr_left
  intro h hh
  obtain ⟨hname, hcolon, hvalue⟩ := hheaders h hh
  exact itemOptions_header hname hcolon hvalue

/-- the loop over the items of the head -/
theorem parseItems_reply (hne : l ≠ []) (o : HeaderOpts) :
    parseItems o ((l :: replyLines date n).map (· ++ [13]) ++ [[13]]) = some (insertAll o (fields date n)) := by
  have hoptions := replyItems_options hstat hdate n
  have hlines : ∀ x ∈ l :: replyLines date n, x ≠ [] :=
    List.forall_mem_cons.2 ⟨hne, fun x hx => (replyLines_clean hdate.noCr n x hx).2⟩
  generalize l :: replyLines date n = lines at hoptions hlines
  have hplain : ∀ item ∈ lines.map (· ++ [13]) ++ [[13]], ¬ AllSlashUri item := by
    intro item hitem
    apply not_allSlashUri
    rcases List.mem_append.1 hitem with hitem | hitem
    · have hmem : itemOptions item ∈ [] :: (fields date n).map fun f => [f] := by
        rw [← hoptions]
        exact List.mem_map_of_mem hitem
      rcases List.mem_cons.1 hmem with heq | hmem
      · simp [heq]
      · obtain ⟨f, -, heq⟩ := List.mem_map.1 hmem
        simp [← heq]
    · rw [List.mem_singleton.1 hitem]
      decide
  obtain ⟨o', ho'⟩ := Option.ne_none_iff_exists'.1 (parseItems_ne_none hplain o)
  -- the loop ends at the blank line, and every line is one of its items
  have hread : (lines.map (· ++ [13]) ++ [[13]]).takeWhile (· ≠ [13]) = lines.map (· ++ [13]) := by
    rw [List.takeWhile_append_of_pos]
    · simp
    · intro x hx
      obtain ⟨y, hy, rfl⟩ := List.mem_map.1 hx
      simp [hlines y hy]
  rw [ho', parseItems_insertAll ho', hread, List.flatMap_def, hoptions, List.flatten_cons, List.nil_append,
    ← List.flatMap_def, List.flatMap_singleton']

end

/-- **The parse of a reply.** -/
theorem parseRequest_reply {date stat : Str} (hstat : stat ∈ Status.all) (hdate : Plain date) (opts : HeaderOpts)
    (content : Str) :
    parseRequest opts (replyGenerate date content stat) =
      some (true, insertAll [(HeaderOptions.requestBody, content)] (fields date content.length)) := by
  obtain ⟨l, rfl, hcr, hne⟩ := statuses_lines stat hstat
  have hnoLf := replyItems_noLf hstat hdate content.length
  have hloop := parseItems_reply hstat hdate content.length hne [(HeaderOptions.requestBody, content)]
  have henc : replyGenerate date content (l ++ crlf) =
      joinLines (l :: replyLines date content.length) ++ crlf ++ content := by
    rw [replyGenerate_eq, joinLines_cons]
  have hclean : ∀ x ∈ l :: replyLines date content.length, 13 ∉ x ∧ x ≠ [] :=
    List.forall_mem_cons.2 ⟨⟨hcr, hne⟩, replyLines_clean hdate.noCr _⟩
  generalize hlines : l :: replyLines date content.length = lines at hnoLf hloop henc hclean
  have hlinesne : lines ≠ [] := by
    rw [← hlines]
    exact List.cons_ne_nil _ _
  have hend : (joinLines lines).length - 2 + 4 = (joinLines lines ++ crlf).length := by
    have hlen : 2 ≤ (joinLines lines).length := by
      rw [← hlines]
      simp [crlf]
      omega
    simp [crlf]
    omega
  have hitems : getlines (joinLines lines ++ crlf) = lines.map (· ++ [13]) ++ [[13]] := by
    rw [getlines_joinLines hnoLf]
    rfl
  rw [parseRequest, henc, find_blankLine hclean hlinesne content]
  dsimp only
  rw [hend, List.take_left, List.drop_left, hitems]
  change (parseItems [(HeaderOptions.requestBody, content)] _).map _ = _
  rw [hloop]
  rfl

/-! ## The look-ups -/

theorem iequals_congr {a b : Str} (h : iequals a b = true) (c : Str) : iequals a c = iequals b c := by
  rw [iequals, iequals, iequals_iff.1 h]

/-- a look-up: first the headers, then the body -/
theorem requestOption_reply {name : Str} (hname : name ≠ []) (date content : Str) :
    requestOption (insertAll [(HeaderOptions.requestBody, content)] (fields date content.length)) name =
      ((lesser (if iequals name HeaderOptions.requestBody then some (HeaderOptions.requestBody, content) else none)
        (scan (iequals name) (fields date content.length))).map (·.2)).getD [] := by
  have hsorted : Sorted [(HeaderOptions.requestBody, content)] := List.pairwise_singleton _ _
  rw [requestOption, if_neg hname, find_insertAll hsorted, List.find?_singleton]

/-- the names of the headers, told apart from each other and from the pseudo-options in any letter case -/
def headerNames : List Str :=
  [ascii "Server", ascii "Date", ascii "Content-Length", ascii "Content-Type", ascii "Connection",
    ascii "Access-Control-Allow-Origin"]

theorem fields_names (date : Str) (n : ℕ) : (fields date n).map Prod.fst = headerNames := rfl

theorem pseudoNames_ne : ∀ k ∈ pseudoNames, ∀ m ∈ headerNames, iequals k m = false ∧ iequals m k = false := by
  decide +kernel

theorem headerNames_eq : ∀ k ∈ headerNames, ∀ m ∈ headerNames, iequals k m = true → m = k := by decide +kernel

theorem scan_pseudo {k : Str} (hk : k ∈ pseudoNames) (date : Str) (n : ℕ) :
    scan (iequals k) (fields date n) = none := by
  rw [scan_eq_none]
  intro f hf
  have hm : f.1 ∈ headerNames := fields_names date n ▸ List.mem_map_of_mem hf
  exact (pseudoNames_ne k hk f.1 hm).1

theorem scan_field {date : Str} {n : ℕ} {f : Str × Str} (hf : f ∈ fields date n) :
    scan (iequals f.1) (fields date n) = some f := by
  have hnames : ∀ e ∈ fields date n, e.1 ∈ headerNames :=
    fun e he => fields_names date n ▸ List.mem_map_of_mem he
  have hnodup : ((fields date n).map Prod.fst).Nodup := by
    rw [fields_names]
    decide +kernel
  rw [scan_eq_find fun e he => headerNames_eq f.1 (hnames f hf) e.1 (hnames e he)]
  obtain ⟨before, after, heq⟩ := List.append_of_mem hf
  rw [heq, List.find?_append, find_cons, if_pos (iequals_iff.2 rfl)]
  have hnone : before.find? (fun e => iequals f.1 e.1) = none := by
    rw [List.find?_eq_none]
    intro e he heq'
    have hmem : e ∈ fields date n := heq ▸ List.mem_append_left _ he
    have hname := headerNames_eq f.1 (hnames f hf) e.1 (hnames e hmem) heq'
    rw [heq, List.map_append, List.map_cons, List.nodup_append] at hnodup
    exact hnodup.2.2 e.1 (List.mem_map_of_mem he) f.1 List.mem_cons_self hname
  rw [hnone, Option.none_or]

theorem replyGenerate_noNul {date content stat : Str} (hstat : stat ∈ Status.all) (hdate : 0 ∉ date)
    (hcontent : 0 ∉ content) : 0 ∉ replyGenerate date content stat := by
  have hstatus : (0 : UInt8) ∉ stat := by
    have hall : ∀ s ∈ Status.all, (0 : UInt8) ∉ s := by decide +kernel
    exact hall stat hstat
  have hn : (0 : UInt8) ∉ toDec content.length := not_mem_toDec (by decide) _
  have hlines : ∀ l ∈ replyLines date content.length, 0 ∉ l := by
    have h1 : (0 : UInt8) ∉ ascii "Date: " := by decide
    have h2 : (0 : UInt8) ∉ ascii "Content-Length: " := by decide
    simp only [replyLines, List.forall_mem_cons, List.mem_append, not_or]
    exact ⟨by decide, ⟨h1, hdate⟩, ⟨h2, hn⟩, by decide, by decide, by decide, by simp⟩
  have hjoin : (0 : UInt8) ∉ joinLines (replyLines date content.length) := by
    intro h
    obtain ⟨l, hl, hmem⟩ := List.mem_flatMap.1 h
    rcases List.mem_append.1 hmem with hmem | hmem
    · exact hlines l hl hmem
    · exact absurd hmem (by decide)
  rw [replyGenerate_eq]
  simp only [List.mem_append, not_or]
  exact ⟨⟨⟨hstatus, hjoin⟩, by decide⟩, hcontent⟩

/-- **The parser undoes the encoder.** Of a reply with any content the parser gives back the content, each header in any
letter case of its name, and no request line. -/
theorem reads_back {date content stat : Str} (hstat : stat ∈ Status.all) (hcr : 13 ∉ date) (hlf : 10 ∉ date)
    (hnul : 0 ∉ date) (htrim : trim date = date) (hcontent : 0 ∉ content) (opts : HeaderOpts) :
    ∃ o, parseRequest opts (cut (replyGenerate date content stat)) = some (true, o) ∧
      requestOption o HeaderOptions.requestBody = content ∧
      (∀ h ∈ replyHeaders date content.length, ∀ name, iequals name h.name = true → requestOption o name = h.value) ∧
      requestOption o HeaderOptions.requestMethod = [] ∧ requestOption o HeaderOptions.requestUri = [] := by
  have hcut : cut (replyGenerate date content stat) = replyGenerate date content stat := by
    have h0 := replyGenerate_noNul hstat hnul hcontent
    rw [cut, List.takeWhile_eq_self_iff]
    intro b hb
    rw [decide_eq_true_eq]
    rintro rfl
    exact h0 hb
  refine ⟨_, by rw [hcut]; exact parseRequest_reply hstat ⟨hcr, hlf, htrim⟩ opts content, ?_, ?_, ?_, ?_⟩
  · rw [requestOption_reply (by decide), scan_pseudo (by simp [pseudoNames]), lesser_none, if_pos (by decide)]
    rfl
  · intro h hh name hname
    have hf : (h.name, h.value) ∈ fields date content.length := List.mem_map_of_mem hh
    have hmem : h.name ∈ headerNames := fields_names date content.length ▸ List.mem_map_of_mem hf
    have hname0 : name ≠ [] := by
      rintro rfl
      rw [iequals_iff] at hname
      revert hmem
      rw [List.map_nil, eq_comm, List.map_eq_nil_iff] at hname
      rw [hname]
      decide
    have hbody := (pseudoNames_ne HeaderOptions.requestBody (by simp [pseudoNames]) h.name hmem).2
    have hsame : iequals name = iequals h.name := funext (iequals_congr hname)
    rw [requestOption_reply hname0, hsame, hbody, scan_field hf]
    rfl
  · rw [requestOption_reply (by decide), scan_pseudo (by simp [pseudoNames]), lesser_none, if_neg (by decide)]
    rfl
  · rw [requestOption_reply (by decide), scan_pseudo (by simp [pseudoNames]), lesser_none, if_neg (by decide)]
    rfl

/-- a content that is a reply itself -/
theorem reads_back_nested :
    ∃ o, parseRequest [] (cut (replyGenerate (ascii "2024-Jan-01 00:00:00")
        (ascii "HTTP/1.1 200 OK\r\nContent-Length: 7\r\n\r\nGET / x:y") Status.ok)) = some (true, o) ∧
      requestOption o HeaderOptions.requestBody = ascii "HTTP/1.1 200 OK\r\nContent-Length: 7\r\n\r\nGET / x:y" :=
  let ⟨o, ho, hbody, _⟩ := @reads_back (ascii "2024-Jan-01 00:00:00")
    (ascii "HTTP/1.1 200 OK\r\nContent-Length: 7\r\n\r\nGET / x:y") Status.ok (by decide) (by decide) (by decide)
    (by decide) (by decide) (by decide) []
  ⟨o, ho, hbody⟩

end AirobotMsgd.HttpParser
