/-
`require_backend_conn` as the loop it is, and what the sweep leaves it to choose from (source/backend_server.cpp).

The loop is a do-while over indexes: it steps to the next one modulo the size of the vector, and stops when it is back
at the index it began with. A run of it may leave the vector (`outOfRange`) or still be going when its fuel is used up
(`unfinished`); it does neither.

Results:
- `probeLoop_rest`: the loop, from any point of its turn on, searches the rest of the turn.
- `requireLoop_eq`: the selection with the loop is the search of the rotated vector that the model of the server uses.
- `selection`: what is selected, and that the sweep does not change whether anything is.
-/
import AirobotMsgd.Core.Ring
import AirobotMsgd.Backend.BackendServer

namespace AirobotMsgd.BackendServer

open AirobotMsgd.Ring

inductive Selected where
  | ret (conn : Option ℕ)
  | outOfRange
  | unfinished
deriving DecidableEq, Repr

def St.working (s : St) (c : ℕ) : Bool := (s.conns c).stats = .connWorking

/-- the `do ... while(index != flag)` -/
def probeLoop (s : St) (flag : ℕ) : ℕ → ℕ → Selected
  | 0, _ => .unfinished
  | fuel + 1, index =>
    let index := (index + 1) % s.backendConns.length
    match s.backendConns[index]? with
    | none => .outOfRange
    | some c =>
      if s.working c then .ret (some c)
      else if index ≠ flag then probeLoop s flag fuel index
      else .ret none

/-- `require_backend_conn` -/
def requireLoop (s : St) (siteId fuel : ℕ) : Selected :=
  if s.backendConns.length = 0 then .ret none
  else
    let index := siteId % s.backendConns.length
    match s.backendConns[index]? with
    | none => .outOfRange
    | some c => if s.working c then .ret (some c) else probeLoop s index fuel index

/-! ## The loop -/

/-- the index k steps ahead is the starting index only after a whole turn -/
theorem ahead_ne {n flag k : ℕ} (hflag : flag < n) (hk : k + 1 < n) : (flag + (k + 1)) % n ≠ flag := by
  intro heq
  rcases Nat.lt_or_ge (flag + (k + 1)) n with hlt | hge
  · rw [Nat.mod_eq_of_lt hlt] at heq
    omega
  · rw [Nat.mod_eq_sub_mod hge, Nat.mod_eq_of_lt (by omega)] at heq
    omega

/-- **The loop searches the rest of the turn.** After k probes, none of them successful, it looks at the entries k + 1
to n steps ahead of where it began. -/
theorem probeLoop_rest {s : St} {flag : ℕ} (hflag : flag < s.backendConns.length) {k fuel : ℕ}
    (hk : k < s.backendConns.length) (hfuel : s.backendConns.length ≤ k + fuel) :
    probeLoop s flag fuel ((flag + k) % s.backendConns.length) =
      .ret (((s.backendConns.rotate (flag + 1)).drop k).find? s.working) := by
  induction fuel generalizing k with
  | zero => omega
  | succ fuel ih =>
    obtain ⟨c, hc, hdrop⟩ := drop_rotate (i := flag + 1) hk
    have hindex : ((flag + k) % s.backendConns.length + 1) % s.backendConns.length =
        (flag + (k + 1)) % s.backendConns.length := by
      rw [Nat.mod_add_mod, add_assoc]
    have hc' : s.backendConns[(flag + (k + 1)) % s.backendConns.length]? = some c := by
      rw [← hc]
      congr 2
      omega
    unfold probeLoop
    dsimp only
    rw [hindex, hc', hdrop]
    dsimp only
    by_cases hw : s.working c = true
    · rw [if_pos hw, List.find?_cons_of_pos hw]
    · rw [if_neg hw, List.find?_cons_of_neg hw]
      by_cases hlast : k + 1 = s.backendConns.length
      · -- back at the index it began with
        have hback : (flag + (k + 1)) % s.backendConns.length = flag := by
          rw [hlast, Nat.add_mod_right, Nat.mod_eq_of_lt hflag]
        rw [hback, if_neg (not_not.2 rfl), List.drop_eq_nil_of_le (by rw [List.length_rotate]; omega)]
        rfl
      · rw [if_pos (ahead_ne hflag (by omega))]
        exact ih (by omega) (by omega)

/-- **The selection with its loop is the search of the rotated vector.** -/
theorem requireLoop_eq (s : St) (siteId : ℕ) {fuel : ℕ} (hfuel : s.backendConns.length ≤ fuel) :
    requireLoop s siteId fuel = .ret (requireBackendConn s siteId) := by
  unfold requireLoop requireBackendConn
  by_cases hn : s.backendConns.length = 0
  · rw [if_pos hn, List.length_eq_zero_iff.1 hn]
    rfl
  · rw [if_neg hn]
    have hpos : 0 < s.backendConns.length := Nat.pos_of_ne_zero hn
    have hflag : siteId % s.backendConns.length < s.backendConns.length := Nat.mod_lt _ hpos
    generalize siteId % s.backendConns.length = flag at hflag
    obtain ⟨c, hc, hturn⟩ := drop_rotate (i := flag) hpos
    rw [add_zero, Nat.mod_eq_of_lt hflag] at hc
    rw [List.drop_zero, zero_add] at hturn
    have hwhole : s.backendConns.rotate (flag + 1) = (s.backendConns.rotate flag).drop 1 ++ [c] := by
      rw [← List.rotate_rotate, hturn, List.rotate_cons_succ, List.rotate_zero]
      rfl
    have hloop := probeLoop_rest hflag hpos (by omega : s.backendConns.length ≤ 0 + fuel)
    rw [add_zero, Nat.mod_eq_of_lt hflag, List.drop_zero] at hloop
    have hsearch : (s.backendConns.rotate flag).find? s.working =
        if s.working c then some c else (s.backendConns.rotate (flag + 1)).find? s.working := by
      rw [hwhole, hturn]
      by_cases hw : s.working c = true
      · rw [if_pos hw, List.find?_cons_of_pos hw]
      · rw [if_neg hw, List.find?_cons_of_neg hw, List.drop_succ_cons, List.drop_zero, List.find?_append,
          List.find?_singleton, if_neg hw, Option.or_none]
    dsimp only
    rw [hc]
    dsimp only
    rw [hloop]
    change _ = Selected.ret ((s.backendConns.rotate flag).find? s.working)
    rw [hsearch]
    split_ifs <;> rfl

/-! ## The sweep -/

/-- what the sweep leaves, on its short way and on its long way -/
theorem sweep_eq_filter (s : St) {ec : Ec} (hec : ec ≠ .operationAborted) :
    (onCheckTimeout s ec).backendConns = s.backendConns.filter fun c => (s.conns c).stats ≠ .connError := by
  unfold onCheckTimeout
  rw [if_pos hec]
  dsimp only
  split_ifs with hnil hok
  · rw [hnil]
    rfl
  · rw [List.filter_eq_self.2 fun c hc => List.all_eq_true.1 hok c hc]
  · rfl

theorem sweep_conns (s : St) (ec : Ec) : (onCheckTimeout s ec).conns = s.conns := by
  unfold onCheckTimeout
  dsimp only
  split_ifs <;> rfl

theorem requireBackendConn_eq_none {s : St} {siteId : ℕ} :
    requireBackendConn s siteId = none ↔ ∀ c ∈ s.backendConns, (s.conns c).stats ≠ .connWorking := by
  rw [requireBackendConn, find?_rotate_eq_none]
  simp

theorem requireBackendConn_eq_some {s : St} {siteId c : ℕ} :
    requireBackendConn s siteId = some c ↔
      Nearest s.backendConns s.working (siteId % s.backendConns.length) c := find?_rotate_iff

/-- a working backend is not swept -/
theorem require_none_sweep (s : St) (ec : Ec) (siteId siteId' : ℕ) :
    requireBackendConn (onCheckTimeout s ec) siteId = none ↔ requireBackendConn s siteId' = none := by
  rw [requireBackendConn_eq_none, requireBackendConn_eq_none, sweep_conns]
  by_cases hec : ec = .operationAborted
  · rw [onCheckTimeout, if_neg (not_not.2 hec)]
  · constructor
    · intro h c hc hw
      refine h c ((mem_sweep s hec c).2 ⟨hc, ?_⟩) hw
      rw [hw]
      decide
    · intro h c hc
      exact h c ((mem_sweep s hec c).1 hc).1

/-- **The selection of a backend.** It ends within a turn and stays inside the vector, whatever the statuses and the site
id; it gives nothing exactly when no backend is working, and otherwise the first working one from index
`site_id mod n` on, around the vector. A sweep leaves the backends that are not marked `conn_error`, in their order, and
the selection then finds a backend for a site id exactly when it did before. -/
theorem selection (s : St) (siteId : ℕ) :
    ∃ r, (∀ fuel, s.backendConns.length ≤ fuel → requireLoop s siteId fuel = .ret r) ∧
      (r = none ↔ ∀ c ∈ s.backendConns, (s.conns c).stats ≠ .connWorking) ∧
      (∀ c, r = some c ↔ Nearest s.backendConns s.working (siteId % s.backendConns.length) c) ∧
      ∀ ec, ec ≠ .operationAborted →
        (onCheckTimeout s ec).backendConns = (s.backendConns.filter fun c => (s.conns c).stats ≠ .connError) ∧
        ∃ r', (∀ fuel, (onCheckTimeout s ec).backendConns.length ≤ fuel →
            requireLoop (onCheckTimeout s ec) siteId fuel = .ret r') ∧ (r'.isSome ↔ r.isSome) := by
  refine ⟨requireBackendConn s siteId, fun fuel => requireLoop_eq s siteId, requireBackendConn_eq_none,
    fun c => requireBackendConn_eq_some, ?_⟩
  intro ec hec
  refine ⟨sweep_eq_filter s hec, _, fun fuel => requireLoop_eq _ siteId, ?_⟩
  rw [← not_iff_not, Option.not_isSome_iff_eq_none, Option.not_isSome_iff_eq_none]
  exact require_none_sweep s ec siteId siteId

end AirobotMsgd.BackendServer
