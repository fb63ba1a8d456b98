/-
A length-prefixed message, cut into chunks, through `sync_read_from` (source/client_ops.cpp).

The colon is looked for once, in the first chunk. The loop then counts whole chunks until it has at least the length, so
a chunk that runs into the next message is counted too, and where the stream ends before it returns what it has.

Results:
- `readRest_complete`, `readRest_incomplete`: what the loop makes of the payload, for every sequence of chunk sizes.
- `decodes_iff_aligned`: the message is decoded, and a stream that ends too early rejected, exactly where the first
  chunk holds the colon and a chunk ends with the payload, or no payload byte arrives.
- `split_in_the_length`: a message of two bytes whose first chunk is its first digit.
-/
import AirobotMsgd.Client.ReadFrom

namespace AirobotMsgd.ClientOps

open AirobotMsgd.Bytes AirobotMsgd.FrontConn

/-! ## The first chunk -/

/-- the payload length and the colon -/
def head (p : Str) : Str := toDec p.length ++ [58]

def message (p : Str) : Str := head p ++ p

theorem length_head (p : Str) : (head p).length = (toDec p.length).length + 1 := by
  simp [head]

theorem length_head_le {p : Str} (hp : p.length < 2 ^ 31) : (head p).length ≤ 11 := by
  rw [length_head]
  exact Nat.succ_le_succ (length_toDec_le (by norm_num) (hp.trans (by norm_num)))

/-- a first chunk that ends within the length -/
theorem decode_split (sock : Sock) {n : ℕ} {data : Str} (hdata : data <+: toDec n) (zeros len : ℕ) :
    ∃ readBuff, (decode sock (data ++ List.replicate zeros 0) len).1 = .ret 0 readBuff := by
  have hnone : find [58] (cut ((data ++ List.replicate zeros 0).take 20)) = none := by
    apply find_byte_none
    intro h
    have hmem := List.mem_of_mem_take (List.takeWhile_subset _ h)
    rcases List.mem_append.1 hmem with hd | hz
    · exact not_mem_toDec (by decide) n (hdata.subset hd)
    · exact absurd (List.eq_of_mem_replicate hz) (by decide)
  refine ⟨data ++ List.replicate zeros 0, ?_⟩
  simp only [decode, emit_fst, hnone]

/-- a first chunk with the colon: the loop is entered with what is behind it -/
theorem decode_head (sock : Sock) {p : Str} (h1 : 1 ≤ p.length) (h2 : p.length < 2 ^ 31 - 256) (rest : Str) {len : ℕ}
    (hlen : (head p).length ≤ len) :
    (decode sock (head p ++ rest) len).1 =
      (readRest sock (if rest.length < p.length then resize rest (p.length + 256) else rest) (len - (head p).length)
        p.length).1 := by
  have hhead := length_head_le (p := p) (by omega)
  have hcut : cut ((head p ++ rest).take 20) = toDec p.length ++ 58 :: cut (rest.take (20 - (head p).length)) := by
    have htake : (head p ++ rest).take 20 = head p ++ rest.take (20 - (head p).length) := by
      rw [List.take_append, List.take_of_length_le (by omega)]
    have hne : ∀ b ∈ head p, decide (b ≠ 0) = true := by
      intro b hb
      rcases List.mem_append.1 hb with hb | hb
      · simp only [decide_eq_true_eq]
        rintro rfl
        exact not_mem_toDec (by decide) _ hb
      · rw [List.mem_singleton.1 hb]
        decide
    rw [htake, cut, List.takeWhile_append_of_pos hne, head, List.append_assoc]
    rfl
  have hfind := find_byte (not_mem_toDec (b := 58) (by decide) p.length) (cut (rest.take (20 - (head p).length)))
  have hatoi : atoi (toDec p.length) = p.length := by
    have hdec := decValue_toDec p.length
    have := atoi_digits (toDec_ne_nil p.length) (isDigit_toDec p.length) (by omega)
    rw [this, hdec]
  have hsize : toSizeT (p.length : ℤ) = p.length := by
    have := toSizeT_of_nonneg (i := p.length) (by omega) (by omega)
    exact_mod_cast this
  have hdrop : (head p ++ rest).drop ((toDec p.length).length + 1) = rest := by
    rw [← length_head, List.drop_left]
  simp only [decode, emit_fst, hcut, hfind, List.take_left, hatoi, hsize]
  rw [if_neg (by omega), emit_fst, emit_fst, hdrop, if_neg (by unfold maxSize plus; omega), emit_fst, minus,
    ← length_head, if_pos hlen]
  congr 2
  split_ifs
  · rw [plus, Nat.mod_eq_of_lt (by omega)]
  · rfl

/-! ## The loop -/

/-- a chunk ends at n, from a on: the stream or the vector ends there, or the sizes add up to it -/
def Reaches (streamLen size : ℕ) (sizes : ℕ → ℕ+) (a n : ℕ) : Prop :=
  streamLen = n ∨ size = n ∨ ∃ k, a + ∑ i ∈ Finset.range k, (sizes i : ℕ) = n

theorem reaches_round {streamLen size a n : ℕ} (sizes : ℕ → ℕ+) (han : a < n) (hs : n ≤ streamLen) (hv : n ≤ size) :
    Reaches streamLen size (fun i => sizes (i + 1)) (a + min (min (sizes 0 : ℕ) (size - a)) (streamLen - a)) n ↔
      Reaches streamLen size sizes a n := by
  by_cases hsn : streamLen = n
  · exact iff_of_true (.inl hsn) (.inl hsn)
  by_cases hvn : size = n
  · exact iff_of_true (.inr (.inl hvn)) (.inr (.inl hvn))
  simp only [Reaches, hsn, hvn, false_or]
  constructor
  · rintro ⟨k, hk⟩
    refine ⟨k + 1, ?_⟩
    rw [Finset.sum_range_succ']
    omega
  · rintro ⟨k, hk⟩
    cases k with
    | zero =>
      rw [Finset.range_zero, Finset.sum_empty] at hk
      omega
    | succ k =>
      rw [Finset.sum_range_succ'] at hk
      refine ⟨k, ?_⟩
      omega

/-- the vector holds the bytes counted so far, and the stream the ones behind them -/
structure Reading (q : Str) (sock : Sock) (readBuff : Str) (a : ℕ) : Prop where
  stream : sock.stream = q.drop a
  le : a ≤ q.length
  fits : a ≤ readBuff.length
  held : readBuff.take a = q.take a

/-- a round keeps it -/
theorem Reading.round {q readBuff : Str} {sock : Sock} {a : ℕ} (h : Reading q sock readBuff a)
    (hin : a < readBuff.length) (hstream : sock.stream ≠ []) :
    ∃ k sock' readBuff', 0 < k ∧ k = min (min (sock.sizes 0 : ℕ) (readBuff.length - a)) (q.length - a) ∧
      sock'.sizes = (fun i => sock.sizes (i + 1)) ∧ readBuff'.length = readBuff.length ∧
      Reading q sock' readBuff' (a + k) ∧
      ∀ realLen, a < realLen → (readRest sock readBuff a realLen).1 = (readRest sock' readBuff' (a + k) realLen).1 := by
  have hpos := (sock.sizes 0).pos
  have hlen : sock.stream.length = q.length - a := by rw [h.stream, List.length_drop]
  have hnonempty := List.length_pos_iff.2 hstream
  generalize hn : min (sock.sizes 0 : ℕ) (readBuff.length - a) = n
  have hdata : (sock.stream.take n).length = min n (q.length - a) := by rw [List.length_take, hlen]
  have hfit : a + (sock.stream.take n).length ≤ readBuff.length := by omega
  have hle := h.le
  refine ⟨min n (q.length - a), ⟨sock.stream.drop n, fun i => sock.sizes (i + 1)⟩,
    overwrite readBuff a (sock.stream.take n), by omega, rfl, rfl, length_overwrite hfit,
    ⟨?_, by omega, by rw [length_overwrite hfit]; omega, ?_⟩, fun realLen hlt => ?_⟩
  · -- past the chunk, or at the end of the stream
    rw [h.stream, List.drop_drop]
    rcases le_total n (q.length - a) with hle | hge
    · rw [min_eq_left hle]
    · rw [List.drop_eq_nil_of_le (by omega), List.drop_eq_nil_of_le (by omega)]
  · rw [← hdata, take_overwrite hin.le, h.held, hdata, List.take_add, h.stream]
    congr 1
    rcases le_total n (q.length - a) with hle | hge
    · rw [min_eq_left hle]
    · rw [min_eq_right hge, List.take_of_length_le (by rw [List.length_drop]; exact hge),
        List.take_of_length_le (by rw [List.length_drop])]
  · rw [readRest_round hlt hin hstream]
    simp only [emit_fst, hn, hdata]

/-- **The loop, where the payload arrives.** It returns at least the length, and the length itself exactly if a chunk
ends there. -/
theorem readRest_complete {q readBuff : Str} {sock : Sock} {a n : ℕ} (h : Reading q sock readBuff a) (hq : n ≤ q.length)
    (hv : n ≤ readBuff.length) :
    ∃ m readBuff', (readRest sock readBuff a n).1 = .ret m readBuff' ∧ readBuff'.take n = q.take n ∧
      (m = n ↔ Reaches q.length readBuff.length sock.sizes a n) := by
  induction hl : q.length - a using Nat.strong_induction_on generalizing sock readBuff a with
  | _ l ih =>
    have hle := h.le
    have hfits := h.fits
    by_cases hlt : a < n
    · have hstream : sock.stream ≠ [] := by
        rw [h.stream, ← List.length_pos_iff, List.length_drop]
        omega
      obtain ⟨k, sock', readBuff', hk, hchunk, hsizes, hlen, hread, hround⟩ := h.round (by omega) hstream
      have hstep := reaches_round sock.sizes hlt hq hv
      rw [← hchunk, ← hsizes] at hstep
      obtain ⟨m, readBuff'', hret, htake, hm⟩ := ih (q.length - (a + k)) (by omega) hread (by omega) rfl
      refine ⟨m, readBuff'', by rw [hround n hlt, hret], htake, ?_⟩
      rw [hm, hlen]
      exact hstep
    · rw [readRest_done _ _ (Nat.not_lt.1 hlt)]
      refine ⟨a, readBuff, rfl, ?_, ?_⟩
      · have htake := congrArg (List.take n) h.held
        rwa [List.take_take, List.take_take, min_eq_left (Nat.not_lt.1 hlt)] at htake
      · constructor
        · rintro rfl
          exact .inr (.inr ⟨0, by simp⟩)
        · rintro (hs | hs | ⟨k, hk⟩) <;> omega

/-- the loop, where the stream ends before -/
theorem readRest_incomplete {q readBuff : Str} {sock : Sock} {a n : ℕ} (h : Reading q sock readBuff a)
    (hq : q.length < n) (hv : n ≤ readBuff.length) :
    ∃ readBuff', (readRest sock readBuff a n).1 = .ret q.length readBuff' := by
  induction hl : q.length - a using Nat.strong_induction_on generalizing sock readBuff a with
  | _ l ih =>
    have hle := h.le
    by_cases hstream : sock.stream = []
    · have ha : a = q.length := by
        have := congrArg List.length h.stream
        rw [hstream, List.length_drop, List.length_nil] at this
        omega
      rw [readRest_end sock (by omega) (by omega) (.inr hstream), ha]
      exact ⟨readBuff, rfl⟩
    · obtain ⟨k, sock', readBuff', hk, -, -, hlen, hread, hround⟩ := h.round (by omega) hstream
      have hle' := hread.le
      obtain ⟨readBuff'', hret⟩ := ih (q.length - (a + k)) (by omega) hread (by omega) rfl
      exact ⟨readBuff'', by rw [hround n (by omega), hret]⟩

/-! ## Results -/

/-- the length of the first chunk -/
def firstLen (sock : Sock) (size : ℕ) : ℕ := min (min (sock.sizes 0 : ℕ) size) sock.stream.length

/-- the message is decoded if its payload arrives, and rejected with 0 if it does not -/
def Decodes (p : Str) (sock : Sock) (r : Outcome) : Prop :=
  if (message p).length ≤ sock.stream.length then ∃ readBuff, r = .ret p.length readBuff ∧ readBuff.take p.length = p
  else ∃ readBuff, r = .ret 0 readBuff

/-- where the payload arrives, the first chunk holds the colon and a chunk ends with the payload; where it does not, no
byte of it arrives or the first chunk ends before the colon -/
def Aligned (p : Str) (sock : Sock) (size : ℕ) : Prop :=
  if (message p).length ≤ sock.stream.length then
    (head p).length ≤ firstLen sock size ∧
      (sock.stream.length = (message p).length ∨ size = (message p).length ∨
        ∃ k, firstLen sock size + ∑ i ∈ Finset.range k, (sock.sizes (i + 1) : ℕ) = (message p).length)
  else sock.stream.length ≤ (head p).length ∨ firstLen sock size < (head p).length

theorem take_resize {v : Str} {a n : ℕ} (ha : a ≤ v.length) (hn : v.length ≤ n) : (resize v n).take a = v.take a := by
  rw [resize, List.take_of_length_le hn, List.take_append_of_le_length ha]

/-- the first chunk, in the zero-filled vector -/
theorem overwrite_zeros (data : Str) (size : ℕ) :
    overwrite (List.replicate size 0) 0 data = data ++ List.replicate (size - data.length) 0 := by
  simp [overwrite]

/-- with the colon in the first chunk the loop begins behind it -/
theorem syncReadFrom_head {p q : Str} {sock : Sock} {size : ℕ} (h1 : 1 ≤ p.length) (h2 : p.length < 2 ^ 31 - 256)
    (hsock : sock.stream = head p ++ q) (hfirst : (head p).length ≤ firstLen sock size) :
    ∃ sock' readBuff, Reading q sock' readBuff (firstLen sock size - (head p).length) ∧
      sock'.sizes = (fun k => sock.sizes (k + 1)) ∧
      readBuff.length =
        (if size - (head p).length < p.length then p.length + 256 else size - (head p).length) ∧
      (syncReadFrom sock (List.replicate size 0)).1 =
        (readRest sock' readBuff (firstLen sock size - (head p).length) p.length).1 := by
  have hhead : 1 ≤ (head p).length := by rw [length_head]; exact Nat.le_add_left 1 _
  have hlength : sock.stream.length = (head p).length + q.length := by rw [hsock, List.length_append]
  have hsize : size ≠ 0 := by unfold firstLen at hfirst; omega
  have hread := readSome_some sock hsize (by rw [← List.length_pos_iff]; omega)
  generalize hn : min (sock.sizes 0 : ℕ) size = n at hread
  have hfirstLen : firstLen sock size = min n sock.stream.length := by rw [firstLen, hn]
  obtain ⟨a, ha⟩ := Nat.exists_eq_add_of_le hfirst
  rw [ha, Nat.add_sub_cancel_left]
  have haq : a ≤ q.length := by omega
  have hdata : sock.stream.take n = head p ++ q.take a := by
    have htake : sock.stream.take n = sock.stream.take (firstLen sock size) := by
      rw [hfirstLen]
      rcases le_total n sock.stream.length with hle | hge
      · rw [min_eq_left hle]
      · rw [min_eq_right hge, List.take_of_length_le hge, List.take_length]
    rw [htake, ha, hsock, List.take_length_add_append]
  have hdatalen : (sock.stream.take n).length = (head p).length + a := by
    rw [hdata, List.length_append, List.length_take, min_eq_left haq]
  generalize hrest : q.take a ++ List.replicate (size - ((head p).length + a)) 0 = rest
  have hrestlen : rest.length = size - (head p).length := by
    rw [← hrest, List.length_append, List.length_take, List.length_replicate]
    omega
  have hresttake : rest.take a = q.take a := by
    rw [← hrest]
    exact List.take_left' (by rw [List.length_take, min_eq_left haq])
  have hbuff : overwrite (List.replicate size 0) 0 (sock.stream.take n) = head p ++ rest := by
    rw [overwrite_zeros, hdatalen, hdata, List.append_assoc, hrest]
  refine ⟨⟨sock.stream.drop n, fun k => sock.sizes (k + 1)⟩,
    if rest.length < p.length then resize rest (p.length + 256) else rest, ⟨?_, haq, ?_, ?_⟩, rfl, ?_, ?_⟩
  · -- the stream behind the first chunk
    rcases le_total n sock.stream.length with hle | hge
    · have hna : n = (head p).length + a := by omega
      rw [hna, hsock, List.drop_length_add_append]
    · rw [List.drop_eq_nil_of_le hge, List.drop_eq_nil_of_le (by omega)]
  · split_ifs
    · rw [length_resize]
      omega
    · omega
  · split_ifs
    · rw [take_resize (by omega) (by omega), hresttake]
    · exact hresttake
  · rw [hrestlen]
    split_ifs
    · rw [length_resize]
    · exact hrestlen
  · rw [syncReadFrom, emit_fst, List.length_replicate, hread]
    dsimp only
    rw [hbuff, hdatalen, decode_head _ h1 h2 rest (Nat.le_add_right _ _), Nat.add_sub_cancel_left]

section
variable {p more : Str} {sock : Sock} {size : ℕ}

/-- a stream that ends before its first byte: the first call fails -/
theorem decodes_closed (hsize : 20 ≤ size) (hnil : sock.stream = []) :
    Decodes p sock (syncReadFrom sock (List.replicate size 0)).1 ↔ Aligned p sock size := by
  have hhead : 1 ≤ (head p).length := by rw [length_head]; exact Nat.le_add_left 1 _
  have hmessage : (message p).length = (head p).length + p.length := List.length_append
  have hread : readSome sock size = (none, sock) := by rw [readSome, if_neg (by omega), if_pos hnil]
  have hzero : sock.stream.length = 0 := by rw [hnil]; rfl
  rw [Decodes, Aligned, if_neg (by omega), if_neg (by omega), syncReadFrom, emit_fst, List.length_replicate, hread]
  exact iff_of_true ⟨_, rfl⟩ (.inl (by omega))

/-- a first chunk that ends within the length: the call returns 0 -/
theorem decodes_early (h1 : 1 ≤ p.length) (hsize : 20 ≤ size) (hstream : sock.stream <+: message p ++ more)
    (hnil : sock.stream ≠ []) (hfirst : ¬ (head p).length ≤ firstLen sock size) :
    Decodes p sock (syncReadFrom sock (List.replicate size 0)).1 ↔ Aligned p sock size := by
  have hread := readSome_some sock (show size ≠ 0 by omega) hnil
  have hdatalen : (sock.stream.take (min (sock.sizes 0 : ℕ) size)).length = firstLen sock size := List.length_take
  have hdata : sock.stream.take (min (sock.sizes 0 : ℕ) size) <+: toDec p.length := by
    have hdec : toDec p.length <+: message p ++ more := by
      rw [message, head, List.append_assoc, List.append_assoc]
      exact List.prefix_append _ _
    apply List.prefix_of_prefix_length_le ((List.take_prefix _ _).trans hstream) hdec
    rw [hdatalen]
    rw [length_head] at hfirst
    omega
  obtain ⟨readBuff, hret⟩ := decode_split
    ⟨sock.stream.drop (min (sock.sizes 0 : ℕ) size), fun k => sock.sizes (k + 1)⟩ hdata
    (size - firstLen sock size) (firstLen sock size)
  have hrun : (syncReadFrom sock (List.replicate size 0)).1 = .ret 0 readBuff := by
    rw [syncReadFrom, emit_fst, List.length_replicate, hread]
    dsimp only
    rw [overwrite_zeros, hdatalen, hret]
  rw [hrun, Decodes, Aligned]
  by_cases hcomplete : (message p).length ≤ sock.stream.length
  · rw [if_pos hcomplete, if_pos hcomplete]
    apply iff_of_false
    · rintro ⟨_, heq, -⟩
      have := (Outcome.ret.inj heq).1
      omega
    · intro h
      exact hfirst h.1
  · rw [if_neg hcomplete, if_neg hcomplete]
    exact iff_of_true ⟨readBuff, rfl⟩ (.inr (Nat.not_le.1 hfirst))

/-- a first chunk with the colon: the loop decides -/
theorem decodes_late (h1 : 1 ≤ p.length) (h2 : p.length < 2 ^ 31 - 256)
    (hstream : sock.stream <+: message p ++ more) (hfirst : (head p).length ≤ firstLen sock size) :
    Decodes p sock (syncReadFrom sock (List.replicate size 0)).1 ↔ Aligned p sock size := by
  have hhead := length_head_le (p := p) (by omega)
  have hmessage : (message p).length = (head p).length + p.length := List.length_append
  have hle : (head p).length ≤ sock.stream.length := hfirst.trans (min_le_right _ _)
  have hprefix : head p <+: sock.stream := by
    have hwhole : head p <+: message p ++ more := by
      rw [message, List.append_assoc]
      exact List.prefix_append _ _
    exact List.prefix_of_prefix_length_le hwhole hstream hle
  obtain ⟨q, hq⟩ := hprefix
  have hpq : q <+: p ++ more := by
    rw [← hq, message, List.append_assoc] at hstream
    exact (List.prefix_append_right_inj _).1 hstream
  have hlength : sock.stream.length = (head p).length + q.length := by rw [← hq, List.length_append]
  obtain ⟨sock', readBuff, hreading, hsizes, hbuff, hret⟩ := syncReadFrom_head h1 h2 hq.symm hfirst
  have hvec : p.length ≤ readBuff.length := by
    rw [hbuff]
    split_ifs <;> omega
  rw [hret, Decodes, Aligned]
  by_cases hcomplete : (message p).length ≤ sock.stream.length
  · rw [if_pos hcomplete, if_pos hcomplete, and_iff_right hfirst]
    obtain ⟨m, readBuff', hm, htake, hiff⟩ := readRest_complete hreading (by omega) hvec
    have hpayload : readBuff'.take p.length = p := by
      rw [htake]
      have hp : p <+: q := List.prefix_of_prefix_length_le (List.prefix_append _ _) hpq (by omega)
      exact (List.prefix_iff_eq_take.1 hp).symm
    have hdec : (∃ readBuff, Outcome.ret m readBuff' = .ret p.length readBuff ∧ readBuff.take p.length = p) ↔
        m = p.length := by
      constructor
      · rintro ⟨_, heq, -⟩
        exact (Outcome.ret.inj heq).1
      · rintro rfl
        exact ⟨readBuff', rfl, hpayload⟩
    have hfull : readBuff.length = p.length ↔ size = (message p).length := by
      rw [hbuff]
      split_ifs <;> omega
    have hsum : ∀ k, firstLen sock size - (head p).length + ∑ i ∈ Finset.range k, (sock'.sizes i : ℕ) = p.length ↔
        firstLen sock size + ∑ i ∈ Finset.range k, (sock.sizes (i + 1) : ℕ) = (message p).length := by
      intro k
      rw [hsizes]
      dsimp only
      omega
    have hend : q.length = p.length ↔ sock.stream.length = (message p).length := by omega
    rw [hm, hdec, hiff, Reaches, hfull, hend]
    simp only [hsum]
  · rw [if_neg hcomplete, if_neg hcomplete]
    obtain ⟨readBuff', hm⟩ := readRest_incomplete hreading (by omega) hvec
    rw [hm]
    constructor
    · rintro ⟨_, heq⟩
      have := (Outcome.ret.inj heq).1
      exact .inl (by omega)
    · intro h
      have hzero : q.length = 0 := by omega
      exact ⟨readBuff', by rw [hzero]⟩

end

/-- **When a message is decoded.** -/
theorem decodes_iff_aligned {p more : Str} {sock : Sock} {size : ℕ} (h1 : 1 ≤ p.length) (h2 : p.length < 2 ^ 31 - 256)
    (hsize : 20 ≤ size) (hstream : sock.stream <+: message p ++ more) :
    Decodes p sock (syncReadFrom sock (List.replicate size 0)).1 ↔ Aligned p sock size := by
  by_cases hnil : sock.stream = []
  · exact decodes_closed hsize hnil
  by_cases hfirst : (head p).length ≤ firstLen sock size
  · exact decodes_late h1 h2 hstream hfirst
  · exact decodes_early h1 hsize hstream hnil hfirst

theorem decodes_iff_aligned_whole :
    Decodes (ascii "ab") ⟨ascii "2:ab1:c", fun _ => 4⟩
        (syncReadFrom ⟨ascii "2:ab1:c", fun _ => 4⟩ (List.replicate 20 0)).1 ↔
      Aligned (ascii "ab") ⟨ascii "2:ab1:c", fun _ => 4⟩ 20 :=
  @decodes_iff_aligned _ (ascii "1:c") _ _ (by decide) (by decide) (by decide) (by decide)

/-- **A split before the colon.** The peer sends a message of two bytes, one byte at a time, and it is rejected. -/
theorem split_in_the_length :
    ¬ Decodes (ascii "ab") ⟨ascii "2:ab", fun _ => 1⟩
      (syncReadFrom ⟨ascii "2:ab", fun _ => 1⟩ (List.replicate 20 0)).1 := by
  intro h
  obtain ⟨readBuff, hret⟩ := decode_split ⟨ascii ":ab", fun _ => 1⟩ (List.prefix_refl (toDec 2)) 19 1
  have hrun : (syncReadFrom ⟨ascii "2:ab", fun _ => 1⟩ (List.replicate 20 0)).1 = .ret 0 readBuff := hret
  rw [Decodes, if_pos (by decide), hrun] at h
  obtain ⟨_, heq, -⟩ := h
  exact absurd (Outcome.ret.inj heq).1 (by decide)

end AirobotMsgd.ClientOps
