import TincQuic.Invite.Files

/-!
# `address_cache.c`

An outgoing connection asks `get_recent_address` for one address after the other.  They come from
four sources: the cache, the edges of the node, `hosts.json` and the `Address` statements.  When
all have been used the answer is "no address", and the caller comes back later for another round.

* `AddressCache.getRecentAddress` is one call, `AddressCache.answers` what a run of calls returns.
* `answers_of_spent`: once a round is over, **the next rounds have only the `Address` statements
  left**: nothing but `reset_address_cache` rewinds `tried` and `json_addr_idx`.
* `exists_round`: every round comes to an end.
* `addresses_retried_iff` says when the addresses of `hosts.json` are tried in every round.
-/

namespace Tinc

open Bytes CText

/-- What `get_recent_address` finds about the node outside the cache and the edges. -/
structure AddressSources where
  name : Name
  /-- `hosts_db` -/
  hosts : Option (List Host)
  /-- the values of `Address` that `read_host_config` finds -/
  addressStatements : List Text
  /-- the value of `Port` that it finds -/
  portStatement : Option Text
  /-- the list that `str2addrinfo` returns, which is empty if it fails -/
  str2addrinfo : Text → Text → List SockAddr

/-- `address_cache_t`, without the node -/
structure AddressCache where
  /-- the first `used` of `data.address` -/
  data : List SockAddr
  tried : ℕ
  /-- what is left of the list `ai`, from `aip` on, unless `ai` is `NULL` -/
  ai : Option (List SockAddr)
  jsonAddrIdx : ℤ
  /-- the statements from `cfg` on, unless `config_tree` is `NULL` -/
  configTree : Option (List Text)
  deriving DecidableEq

/-- `open_address_cache`, which finds `data` in the file of the node. -/
def openAddressCache (data : List SockAddr) : AddressCache :=
  { data := if 8 < data.length then [] else data
    tried := 0, ai := none, jsonAddrIdx := -1, configTree := none }

/-- `get_known_addresses` -/
def Daemon.getKnownAddresses (d : Daemon) (n : Name) : List SockAddr :=
  let add := fun (ai : List SockAddr) (e : EdgeId) =>
    match (d.edge e).reverse with
    | none => ai
    | some r => if (d.edge r).address ∈ ai then ai else (d.edge r).address :: ai
  (d.edgeTree n).foldl add []

namespace AddressSources

variable (src : AddressSources)

/-- `hosts_db_find` of the node -/
def host : Option Host := src.hosts.bind (hostsDbFind · src.name)

/-- `port_str` -/
def portStr (h : Host) : Text := (decimal h.port).take 7

/-- The addresses that one `Address` statement gives: the copied list is in reverse. -/
def ofStatement (statement : Text) : List SockAddr :=
  let address := statement.takeWhile (· ≠ 32)
  let port :=
    if 32 ∈ statement then statement.drop (address.length + 1)
    else src.portStatement.getD (ascii "443")
  (src.str2addrinfo address port).reverse

/-- The loop over the `Address` statements, which goes on until there is an address. -/
def nextStatement : List Text → Option (List SockAddr) → List Text × Option (List SockAddr)
  | [], ai => ([], ai)
  | statement :: cfg, ai =>
      if ai.getD [] ≠ [] then (statement :: cfg, ai)
      else if src.ofStatement statement = [] then nextStatement cfg none
      else nextStatement cfg (some (src.ofStatement statement))

/-- The socket addresses that `hosts.json` lists for the node. -/
def listed : List SockAddr :=
  (src.host.map fun h => h.addresses.flatMap (src.str2addrinfo · (portStr h))).getD []

/-- The socket addresses that the `Address` statements give. -/
def stated : List SockAddr := src.addressStatements.flatMap src.ofStatement

end AddressSources

namespace AddressCache

variable (src : AddressSources)

/-- The loop over the addresses of the edges: the first that is not in the cache, and those after
it. -/
def nextUncached (data : List SockAddr) : List SockAddr → Option (SockAddr × List SockAddr)
  | [] => none
  | sa :: aip => if sa ∈ data then nextUncached data aip else some (sa, aip)

/-- The second source: `known` is what `get_known_addresses` returns. -/
def nextKnown (known : List SockAddr) (cache : AddressCache) : AddressCache × Option SockAddr :=
  if cache.tried = cache.data.length then
    match nextUncached cache.data (cache.ai.getD known) with
    | some (sa, aip) => ({ cache with ai := some aip }, some sa)
    | none => ({ cache with ai := none, tried := cache.tried + 1 }, none)
  else (cache, none)

/-- The third source, `hosts.json`. -/
def nextJson (cache : AddressCache) : AddressCache × Option SockAddr :=
  let cache := if cache.jsonAddrIdx = -1 then { cache with jsonAddrIdx := 0 } else cache
  if src.hosts.isSome ∧ 0 ≤ cache.jsonAddrIdx then
    match src.host with
    | none => ({ cache with jsonAddrIdx := -2 }, none)
    | some h =>
        match h.addresses[cache.jsonAddrIdx.toNat]? with
        | none => ({ cache with jsonAddrIdx := -2 }, none)
        | some addr =>
            let cache := { cache with jsonAddrIdx := cache.jsonAddrIdx + 1 }
            match src.str2addrinfo addr (AddressSources.portStr h) with
            | [] => ({ cache with ai := none }, none)
            | sa :: aip => ({ cache with ai := some aip }, some sa)
  else (cache, none)

/-- The last source, the `Address` statements, and the end of the round. -/
def nextConfig (cache : AddressCache) : AddressCache × Option SockAddr :=
  match src.nextStatement (cache.configTree.getD src.addressStatements) cache.ai with
  | (cfg, some (sa :: aip)) => ({ cache with configTree := some cfg, ai := some aip }, some sa)
  | _ => ({ cache with configTree := none, ai := none }, none)

/-- `get_recent_address` -/
def getRecentAddress (known : List SockAddr) (cache : AddressCache) :
    AddressCache × Option SockAddr :=
  match cache.data[cache.tried]? with
  | some sa => ({ cache with tried := cache.tried + 1 }, some sa)
  | none =>
      match cache.nextKnown known with
      | (cache, some sa) => (cache, some sa)
      | (cache, none) =>
          match cache.nextJson src with
          | (cache, some sa) => (cache, some sa)
          | (cache, none) => cache.nextConfig src

/-- The cache after a call for each of these daemons. -/
def after (cache : AddressCache) : List Daemon → AddressCache
  | [] => cache
  | d :: ds => after (cache.getRecentAddress src (d.getKnownAddresses src.name)).1 ds

/-- What the calls return.  Between them the daemon may have changed. -/
def answers (cache : AddressCache) : List Daemon → List (Option SockAddr)
  | [] => []
  | d :: ds =>
      let result := cache.getRecentAddress src (d.getKnownAddresses src.name)
      result.2 :: answers result.1 ds

/-- Between two calls that return no address, every one of these is returned. -/
def Retried (listed : List SockAddr) (answers : List (Option SockAddr)) : Prop :=
  ∀ before round after, answers = before ++ none :: (round ++ none :: after) → none ∉ round →
    ∀ sa ∈ listed, some sa ∈ round

/-- Only the `Address` statements are left. -/
def Spent (cache : AddressCache) : Prop :=
  cache.data.length < cache.tried ∧ (src.hosts = none ∨ cache.jsonAddrIdx < -1)

/-- What the `Address` statements still give in this round. -/
def pending (cache : AddressCache) : List SockAddr :=
  cache.ai.getD [] ++ (cache.configTree.getD src.addressStatements).flatMap src.ofStatement

lemma answers_append (cache : AddressCache) (ds es : List Daemon) :
    cache.answers src (ds ++ es) = cache.answers src ds ++ (cache.after src ds).answers src es := by
  induction ds generalizing cache with
  | nil => rfl
  | cons d ds ih => simp [answers, after, ih]

/-- What is returned after some answer comes from the cache that the call with this answer left. -/
lemma answers_split {cache : AddressCache} {ds : List Daemon} {before rest : List (Option SockAddr)}
    {answer : Option SockAddr} (h : cache.answers src ds = before ++ answer :: rest) :
    ∃ (cache' : AddressCache) (d : Daemon) (es : List Daemon),
      (cache'.getRecentAddress src (d.getKnownAddresses src.name)).2 = answer ∧
      (cache'.getRecentAddress src (d.getKnownAddresses src.name)).1.answers src es = rest := by
  induction before generalizing cache ds with
  | nil =>
      cases ds with
      | nil => simp [answers] at h
      | cons d es =>
          simp only [answers, List.nil_append, List.cons.injEq] at h
          exact ⟨cache, d, es, h.1, h.2⟩
  | cons a before ih =>
      cases ds with
      | nil => simp [answers] at h
      | cons d es =>
          simp only [answers, List.cons_append, List.cons.injEq] at h
          exact ih h.2

/-- The statements from which an address comes, and what they leave. -/
lemma nextStatement_flatMap (cfg : List Text) (ai : Option (List SockAddr)) :
    (src.nextStatement cfg ai).2.getD [] ++
        (src.nextStatement cfg ai).1.flatMap src.ofStatement =
      ai.getD [] ++ cfg.flatMap src.ofStatement := by
  induction cfg generalizing ai with
  | nil => rfl
  | cons statement cfg ih =>
      simp only [AddressSources.nextStatement]
      split_ifs with hai hnone
      · rfl
      · have hai : ai.getD [] = [] := by simpa using hai
        simp [ih, hai, hnone]
      · have hai : ai.getD [] = [] := by simpa using hai
        simp [ih, hai]

/-- The loop ends without an address only after the last statement. -/
lemma nextStatement_exhausted (cfg : List Text) (ai : Option (List SockAddr))
    (h : (src.nextStatement cfg ai).2.getD [] = []) : (src.nextStatement cfg ai).1 = [] := by
  induction cfg generalizing ai with
  | nil => rfl
  | cons statement cfg ih =>
      simp only [AddressSources.nextStatement] at h ⊢
      split_ifs at h ⊢ with hai hnone
      · exact absurd h hai
      · exact ih none h
      · exact ih _ h

/-- The last source gives what is pending, from the first to the last. -/
lemma nextConfig_cases (cache : AddressCache) :
    (∃ sa rest, cache.pending src = sa :: rest ∧ (cache.nextConfig src).2 = some sa ∧
        (cache.nextConfig src).1.pending src = rest) ∨
      (cache.pending src = [] ∧ (cache.nextConfig src).2 = none ∧
        (cache.nextConfig src).1.pending src = src.stated) := by
  have hflat := nextStatement_flatMap src
    (cache.configTree.getD src.addressStatements) cache.ai
  have hend := nextStatement_exhausted src
    (cache.configTree.getD src.addressStatements) cache.ai
  rcases hn : src.nextStatement (cache.configTree.getD src.addressStatements) cache.ai with
    ⟨cfg, ai⟩
  rw [hn] at hflat hend
  rcases ai with _ | _ | ⟨sa, aip⟩
  · right
    have hcfg : cfg = [] := hend rfl
    refine ⟨?_, ?_, ?_⟩
    · simpa [pending, hcfg] using hflat.symm
    · simp [nextConfig, hn]
    · simp [nextConfig, hn, pending, AddressSources.stated]
  · right
    have hcfg : cfg = [] := hend rfl
    refine ⟨?_, ?_, ?_⟩
    · simpa [pending, hcfg] using hflat.symm
    · simp [nextConfig, hn]
    · simp [nextConfig, hn, pending, AddressSources.stated]
  · left
    refine ⟨sa, aip ++ cfg.flatMap src.ofStatement, ?_, ?_, ?_⟩
    · simpa [pending] using hflat.symm
    · simp [nextConfig, hn]
    · simp [nextConfig, hn, pending]

variable {src} {cache : AddressCache}

@[simp]
lemma nextConfig_data : (cache.nextConfig src).1.data = cache.data := by
  unfold nextConfig; split <;> rfl

@[simp]
lemma nextConfig_tried : (cache.nextConfig src).1.tried = cache.tried := by
  unfold nextConfig; split <;> rfl

@[simp]
lemma nextConfig_jsonAddrIdx : (cache.nextConfig src).1.jsonAddrIdx = cache.jsonAddrIdx := by
  unfold nextConfig; split <;> rfl

lemma Spent.nextKnown (h : cache.Spent src) (known : List SockAddr) :
    cache.nextKnown known = (cache, none) := if_neg h.1.ne'

lemma Spent.nextJson (h : cache.Spent src) :
    (cache.nextJson src).2 = none ∧ (cache.nextJson src).1.Spent src ∧
      (cache.nextJson src).1.pending src = cache.pending src := by
  obtain ⟨htried, hnone | hidx⟩ := h
  · simp only [AddressCache.nextJson, hnone]
    split_ifs <;> simp_all [Spent, pending]
  · have h1 : cache.jsonAddrIdx ≠ -1 := hidx.ne
    have h2 : ¬ 0 ≤ cache.jsonAddrIdx := by omega
    simp [AddressCache.nextJson, h1, h2, Spent, htried, hidx]

lemma Spent.nextConfig (h : cache.Spent src) : (cache.nextConfig src).1.Spent src := by
  simpa [Spent] using h

/-- Once the first three sources are spent, a call gives the next address that is pending, or says
that there is none and starts over with the statements. -/
lemma Spent.getRecentAddress (h : cache.Spent src) (known : List SockAddr) :
    (cache.getRecentAddress src known).1.Spent src ∧
      ((∃ sa rest, cache.pending src = sa :: rest ∧
          (cache.getRecentAddress src known).2 = some sa ∧
          (cache.getRecentAddress src known).1.pending src = rest) ∨
        (cache.pending src = [] ∧ (cache.getRecentAddress src known).2 = none ∧
          (cache.getRecentAddress src known).1.pending src = src.stated)) := by
  obtain ⟨hnone, hspent, hpending⟩ := h.nextJson
  have hcall : cache.getRecentAddress src known = (cache.nextJson src).1.nextConfig src := by
    have hdata : cache.data[cache.tried]? = none := List.getElem?_eq_none h.1.le
    rcases hjson : cache.nextJson src with ⟨cache', answer⟩
    have hanswer : answer = none := by simpa [hjson] using hnone
    simp [AddressCache.getRecentAddress, hdata, h.nextKnown, hjson, hanswer]
  rw [hcall, ← hpending]
  exact ⟨hspent.nextConfig, nextConfig_cases src _⟩

/-- **A round after the first** gives what is pending and nothing else. -/
lemma answers_of_spent (h : cache.Spent src) {ds : List Daemon}
    {round after : List (Option SockAddr)}
    (hds : cache.answers src ds = round ++ none :: after) (hround : none ∉ round) :
    round = (cache.pending src).map some := by
  induction ds generalizing cache round with
  | nil => simp [answers] at hds
  | cons d ds ih =>
      obtain ⟨hspent, ⟨sa, rest, hpending, hanswer, hrest⟩ | ⟨hpending, hanswer, -⟩⟩ :=
        h.getRecentAddress (d.getKnownAddresses src.name)
      · simp only [answers, hanswer] at hds
        cases round with
        | nil => simp at hds
        | cons a round =>
            simp only [List.cons_append, List.cons.injEq] at hds
            have hih := ih hspent hds.2 (fun hmem => hround (List.mem_cons_of_mem _ hmem))
            rw [hih, hrest, hpending, ← hds.1]
            rfl
      · simp only [answers, hanswer] at hds
        cases round with
        | nil => simp [hpending]
        | cons a round =>
            simp only [List.cons_append, List.cons.injEq] at hds
            exact absurd (by simp [← hds.1]) hround

section Resolvable

/- Every address that `hosts.json` lists for the node resolves to exactly one. -/
variable (hone : ∀ h, src.host = some h → ∀ a ∈ h.addresses,
  ∃ sa, src.str2addrinfo a (AddressSources.portStr h) = [sa])

/-- The addresses of `hosts.json` that are still to come. -/
def jsonLeft (src : AddressSources) (cache : AddressCache) : ℕ :=
  if cache.jsonAddrIdx < -1 then 0
  else ((src.host.map (·.addresses)).getD []).length - cache.jsonAddrIdx.toNat

include hone in
lemma nextJson_cases (cache : AddressCache) :
    (∃ sa i, cache.nextJson src = ({ cache with jsonAddrIdx := i, ai := some [] }, some sa) ∧
        jsonLeft src { cache with jsonAddrIdx := i } < jsonLeft src cache) ∨
      ∃ i, cache.nextJson src = ({ cache with jsonAddrIdx := i }, none) ∧
        jsonLeft src { cache with jsonAddrIdx := i } ≤ jsonLeft src cache ∧
        (src.hosts = none ∨ i < -1) := by
  -- the index at which the search goes on
  obtain ⟨i, hi⟩ : ∃ i, i = if cache.jsonAddrIdx = -1 then 0 else cache.jsonAddrIdx := ⟨_, rfl⟩
  have hcache : (if cache.jsonAddrIdx = -1 then { cache with jsonAddrIdx := 0 } else cache) =
      { cache with jsonAddrIdx := i } := by
    rw [hi]
    split_ifs <;> rfl
  have hleft : jsonLeft src { cache with jsonAddrIdx := i } = jsonLeft src cache := by
    rw [hi]
    unfold jsonLeft
    split_ifs with h1 h2 h2 <;> simp_all
  unfold nextJson
  rw [hcache, ← hleft]
  dsimp only
  by_cases hjson : src.hosts.isSome ∧ 0 ≤ i
  · have hdone : jsonLeft src { cache with jsonAddrIdx := -2 } = 0 := rfl
    rcases hhost : src.host with _ | h
    · exact .inr ⟨-2, if_pos hjson, by simp [hdone], .inr (by omega)⟩
    · rcases haddr : h.addresses[i.toNat]? with _ | addr
      · exact .inr ⟨-2, by simp [hjson, haddr], by simp [hdone], .inr (by omega)⟩
      · left
        obtain ⟨hlt, -⟩ := List.getElem?_eq_some_iff.1 haddr
        obtain ⟨sa, hsa⟩ := hone h hhost addr (List.mem_of_getElem? haddr)
        refine ⟨sa, i + 1, by simp [hjson, haddr, hsa], ?_⟩
        have h0 : 0 ≤ i := hjson.2
        simp only [jsonLeft, hhost, Option.map_some, Option.getD_some]
        rw [if_neg (by omega), if_neg (by omega)]
        omega
  · refine .inr ⟨i, if_neg hjson, le_rfl, ?_⟩
    by_cases hhosts : src.hosts = none
    · exact .inl hhosts
    · right
      have h0 : ¬ 0 ≤ i := fun h0 => hjson ⟨Option.isSome_iff_ne_none.2 hhosts, h0⟩
      split_ifs at hi <;> omega

/-- After the second source `tried` is beyond the cache. -/
lemma nextKnown_none (known : List SockAddr) (htried : cache.data.length ≤ cache.tried)
    (h : (cache.nextKnown known).2 = none) :
    (cache.nextKnown known).1.data.length < (cache.nextKnown known).1.tried := by
  unfold nextKnown at h ⊢
  split_ifs at h ⊢ with heq
  · split at h
    · simp at h
    · simp [heq]
  · exact lt_of_le_of_ne htried (Ne.symm heq)

include hone in
/-- **The end of a round** leaves nothing but the statements for the next. -/
lemma getRecentAddress_none {known : List SockAddr}
    (h : (cache.getRecentAddress src known).2 = none) :
    (cache.getRecentAddress src known).1.Spent src ∧
      (cache.getRecentAddress src known).1.pending src = src.stated := by
  unfold getRecentAddress at h ⊢
  rcases hdata : cache.data[cache.tried]? with _ | sa
  · have hknown := nextKnown_none known (List.getElem?_eq_none_iff.1 hdata)
    rcases hk : cache.nextKnown known with ⟨cache₁, _ | sa⟩
    · rw [hk] at hknown
      have htried := hknown rfl
      rcases nextJson_cases hone cache₁ with ⟨sa, i, hj, -⟩ | ⟨i, hj, -, hi⟩
      · simp [hdata, hk, hj] at h
      · simp only [hdata, hk, hj] at h ⊢
        have hspent : { cache₁ with jsonAddrIdx := i }.Spent src := ⟨htried, hi⟩
        refine ⟨hspent.nextConfig, ?_⟩
        rcases nextConfig_cases src { cache₁ with jsonAddrIdx := i } with
          ⟨sa, rest, -, hsome, -⟩ | ⟨-, -, hrest⟩
        · simp [hsome] at h
        · exact hrest
    · simp [hdata, hk] at h
  · simp [hdata] at h

/-- How many calls can still return an address, if no edge tells any. -/
def callsLeft (src : AddressSources) (cache : AddressCache) : ℕ :=
  (cache.data.length + 1 - cache.tried) + jsonLeft src cache + (cache.pending src).length

lemma length_nextUncached {data ai aip : List SockAddr} {sa : SockAddr}
    (h : nextUncached data ai = some (sa, aip)) : aip.length < ai.length := by
  induction ai with
  | nil => simp [nextUncached] at h
  | cons b ai ih =>
      rw [nextUncached] at h
      split_ifs at h with hb
      · exact (ih h).trans (Nat.lt_succ_self _)
      · simp only [Option.some.injEq, Prod.mk.injEq] at h
        simp [← h.2]

lemma callsLeft_nextKnown (src : AddressSources) (cache : AddressCache) :
    callsLeft src (cache.nextKnown []).1 ≤ callsLeft src cache ∧
      ((cache.nextKnown []).2 ≠ none →
        callsLeft src (cache.nextKnown []).1 < callsLeft src cache) := by
  unfold nextKnown
  split_ifs with htried
  · rcases hnext : nextUncached cache.data (cache.ai.getD []) with _ | ⟨sa, aip⟩
    · simp [callsLeft, jsonLeft, pending]
      omega
    · have hlt := length_nextUncached hnext
      simp [callsLeft, jsonLeft, pending]
      omega
  · simp

include hone in
lemma callsLeft_nextJson (cache : AddressCache) :
    callsLeft src (cache.nextJson src).1 ≤ callsLeft src cache ∧
      ((cache.nextJson src).2 ≠ none →
        callsLeft src (cache.nextJson src).1 < callsLeft src cache) := by
  rcases nextJson_cases hone cache with ⟨sa, i, hj, hlt⟩ | ⟨i, hj, hle, -⟩
  · rw [hj]
    simp only [callsLeft, pending, jsonLeft, Option.getD_some, List.length_append,
      List.length_nil] at hlt ⊢
    omega
  · rw [hj]
    simp only [callsLeft, pending, jsonLeft] at hle ⊢
    simpa using hle

lemma callsLeft_nextConfig (h : (cache.nextConfig src).2 ≠ none) :
    callsLeft src (cache.nextConfig src).1 < callsLeft src cache := by
  rcases nextConfig_cases src cache with ⟨sa, rest, hpending, -, hrest⟩ | ⟨-, hnone, -⟩
  · simp [callsLeft, jsonLeft, hpending, hrest]
  · exact absurd hnone h

include hone in
/-- A call that returns an address leaves fewer of them. -/
lemma callsLeft_getRecentAddress (h : (cache.getRecentAddress src []).2 ≠ none) :
    callsLeft src (cache.getRecentAddress src []).1 < callsLeft src cache := by
  unfold getRecentAddress at h ⊢
  rcases hdata : cache.data[cache.tried]? with _ | sa
  · obtain ⟨hkle, hklt⟩ := callsLeft_nextKnown src cache
    rcases hk : cache.nextKnown [] with ⟨cache₁, _ | sa⟩
    · obtain ⟨hjle, hjlt⟩ := callsLeft_nextJson hone cache₁
      rcases hj : cache₁.nextJson src with ⟨cache₂, _ | sa⟩
      · simp only [hdata, hk, hj] at h ⊢
        rw [hk] at hkle
        rw [hj] at hjle
        exact (callsLeft_nextConfig h).trans_le (hjle.trans hkle)
      · simp only [hj]
        rw [hk] at hkle
        rw [hj] at hjlt
        exact (hjlt (by simp)).trans_le hkle
    · dsimp only
      rw [hk] at hklt
      exact hklt (by simp)
  · obtain ⟨hlt, -⟩ := List.getElem?_eq_some_iff.1 hdata
    simp only [callsLeft, jsonLeft, pending]
    omega

include hone in
/-- **Every round comes to an end**, here with a daemon that knows no edge. -/
lemma exists_round {d : Daemon} (hd : d.getKnownAddresses src.name = []) (cache : AddressCache) :
    ∃ n round, cache.answers src (List.replicate (n + 1) d) = round ++ [none] ∧ none ∉ round ∧
      (cache.after src (List.replicate (n + 1) d)).Spent src ∧
      (cache.after src (List.replicate (n + 1) d)).pending src = src.stated := by
  -- induction on the number of addresses that are left
  obtain ⟨k, hk⟩ : ∃ k, k = callsLeft src cache := ⟨_, rfl⟩
  induction k using Nat.strong_induction_on generalizing cache with
  | _ k ih =>
      rcases hanswer : (cache.getRecentAddress src []).2 with _ | sa
      · obtain ⟨hspent, hpending⟩ := getRecentAddress_none hone hanswer
        refine ⟨0, [], ?_, by simp, ?_, ?_⟩
        · simp [answers, hd, hanswer]
        · simpa [after, hd] using hspent
        · simpa [after, hd] using hpending
      · have hlt : callsLeft src (cache.getRecentAddress src []).1 < callsLeft src cache :=
          callsLeft_getRecentAddress hone (by simp [hanswer])
        obtain ⟨n, round, hround, hnone, hspent, hpending⟩ := ih _ (hk ▸ hlt) _ rfl
        refine ⟨n + 1, some sa :: round, ?_, by simpa using hnone, ?_, ?_⟩
        · rw [List.replicate_succ]
          simp only [answers, hd, hanswer, hround]
          rfl
        · rw [List.replicate_succ]
          simpa only [after, hd] using hspent
        · rw [List.replicate_succ]
          simpa only [after, hd] using hpending

include hone in
/-- **The addresses of `hosts.json` are tried again in every round** exactly if each of them comes
from an `Address` statement too: from the second round on there is no other source. -/
theorem addresses_retried_iff (cache : AddressCache) :
    (∀ ds, Retried src.listed (cache.answers src ds)) ↔ ∀ sa ∈ src.listed, sa ∈ src.stated := by
  constructor
  · intro h sa hsa
    -- two rounds of a daemon without edges
    obtain ⟨e, he⟩ : ∃ e : Daemon, e.getKnownAddresses src.name = [] :=
      ⟨.init (.plain src.name) fun _ => 0, rfl⟩
    obtain ⟨n, first, hfirst, -, hspent, hpending⟩ := exists_round hone he cache
    obtain ⟨m, second, hsecond, hnone, -, -⟩ :=
      exists_round hone he (cache.after src (List.replicate (n + 1) e))
    have hanswers : cache.answers src (List.replicate (n + 1) e ++ List.replicate (m + 1) e) =
        first ++ none :: (second ++ [none]) := by
      rw [answers_append, hfirst, hsecond]
      simp
    have hmem := h _ first second [] hanswers hnone sa hsa
    rw [answers_of_spent hspent hsecond hnone, hpending] at hmem
    simpa using hmem
  · intro h ds before round after hds hround sa hsa
    obtain ⟨cache', d, es, hanswer, hrest⟩ := answers_split src hds
    obtain ⟨hspent, hpending⟩ := getRecentAddress_none hone hanswer
    rw [answers_of_spent hspent hrest hround, hpending]
    exact List.mem_map_of_mem (h sa hsa)

end Resolvable

/-- A peer with one address, which is in `hosts.json`. -/
def onlyListed : AddressSources where
  name := ascii "b"
  hosts := some [{ name := ascii "b", addresses := [ascii "192.0.2.7"] }]
  addressStatements := []
  portStatement := none
  str2addrinfo := fun _ _ => [.inet [192, 0, 2, 7] 443]

/-- The same peer with an `Address` statement for that address. -/
def alsoStated : AddressSources := { onlyListed with addressStatements := [ascii "192.0.2.7"] }

theorem addresses_retried_also_stated : alsoStated.listed ≠ [] ∧
    ∀ ds, Retried alsoStated.listed ((openAddressCache []).answers alsoStated ds) := by
  refine ⟨by decide, (addresses_retried_iff ?_ _).2 (by decide)⟩
  intro h _ a _
  exact ⟨.inet [192, 0, 2, 7] 443, rfl⟩

/-- The second round, one call that returns no address, does not try the address again. -/
theorem listed_address_not_retried : ¬ ∀ (src : AddressSources) (data : List SockAddr)
    (ds : List Daemon), src.addressStatements = [] →
    (∀ h, src.host = some h → ∀ a ∈ h.addresses,
      ∃ sa, src.str2addrinfo a (AddressSources.portStr h) = [sa]) →
    Retried src.listed ((openAddressCache data).answers src ds) := by
  intro h
  have hretried := h onlyListed [] (List.replicate 3 (.init (.plain []) fun _ => 0)) rfl
    (fun _ _ _ _ => ⟨.inet [192, 0, 2, 7] 443, rfl⟩)
  have hanswers : (openAddressCache []).answers onlyListed
      (List.replicate 3 (.init (.plain []) fun _ => 0)) =
      [some (.inet [192, 0, 2, 7] 443)] ++ none :: ([] ++ none :: []) := by decide
  have hmem := hretried _ _ _ hanswers (by simp) (.inet [192, 0, 2, 7] 443) (by decide)
  simp at hmem

end AddressCache

end Tinc
