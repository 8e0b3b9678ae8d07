import TincQuic.Daemon.State
import TincQuic.Lib.MoveToFront
import Mathlib.Data.List.InsertIdx

/-!
# The cache of recent addresses

`add_recent_address` keeps the addresses at which a node was reached last, and writes them to a file
as they are in memory.

* `CacheData` is what is in memory and in the file, and `Heap` are the texts to which addresses of
  the family `AF_UNKNOWN` point.
* `addRecentAddress` moves with `memmove`, which is one step of the library list: `cached_insert`.
* **The cache is right just as long as no address is added that points to its text**, which is not
  in the file: `cacheRight_iff`.
-/

namespace Tinc

open Bytes CText MoveToFront Function

/-! ## The source -/

/-- `sockaddr_t`, as it is in memory. -/
inductive RawAddr where
  | unspec
  /-- `sockaddr_unknown`, which has two pointers -/
  | unknown (address port : ℕ)
  | inet (address : Vector UInt8 4) (port : Vector UInt8 2)
  | inet6 (address : Vector UInt8 16) (port : Vector UInt8 2) (flowinfo scopeId : UInt32)
deriving DecidableEq

/-- The texts in memory.  A process that was started later has other ones. -/
abbrev Heap := ℕ → Option Text

/-- `sa_family` -/
def RawAddr.family : RawAddr → ℤ
  | .unspec => 0
  | .unknown _ _ => 255
  | .inet _ _ => 2
  | .inet6 _ _ _ _ => 10

/-- `memcmp`, of as many bytes as both have -/
def memcmp : List UInt8 → List UInt8 → ℤ
  | a :: s, b :: t => if a = b then memcmp s t else (a.toNat : ℤ) - b.toNat
  | _, _ => 0

/-- `sockaddrcmp`, which faults if a pointer leads nowhere. -/
def sockaddrcmp (h : Heap) (a b : RawAddr) : Option ℤ :=
  if a.family - b.family ≠ 0 then some (a.family - b.family)
  else
    match a, b with
    | .unknown address port, .unknown address' port' => do
        let result := strcmp (← h address) (← h address')
        if result ≠ 0 then some result else some (strcmp (← h port) (← h port'))
    | .inet address port, .inet address' port' =>
        let result := memcmp address.toList address'.toList
        if result ≠ 0 then some result else some (memcmp port.toList port'.toList)
    | .inet6 address port _ _, .inet6 address' port' _ _ =>
        let result := memcmp address.toList address'.toList
        if result ≠ 0 then some result else some (memcmp port.toList port'.toList)
    | _, _ => some 0

/-- `MAX_CACHED_ADDRESSES` -/
def maxCachedAddresses : ℕ := 8

/-- `ADDRESS_CACHE_VERSION` -/
def addressCacheVersion : ℕ := 1

/-- The `data` of an `address_cache_t`, which is also what its file holds. -/
structure CacheData where
  version : ℕ
  used : ℕ
  address : ℕ → RawAddr

/-- After `memset`. -/
def CacheData.zero : CacheData where
  version := 0
  used := 0
  address := fun _ => .unspec

/-- The loop of `find_cached`, with `n` rounds left.  It returns a place, or nothing for
`NOT_CACHED`. -/
def findCached (h : Heap) (data : CacheData) (sa : RawAddr) : ℕ → ℕ → Option (Option ℕ)
  | 0, _ => some none
  | n + 1, i =>
      match sockaddrcmp h (data.address i) sa with
      | none => none
      | some c => if c = 0 then some (some i) else findCached h data sa n (i + 1)

/-- The address comes first, and what was at `pos` is lost. -/
def CacheData.insert (data : CacheData) (pos : ℕ) (sa : RawAddr) : CacheData :=
  { data with address := update (shift data.address pos) 0 sa }

/-- `add_recent_address`: the new data, and what is written to the file. -/
def addRecentAddress (h : Heap) (data : CacheData) (sa : RawAddr) :
    Option (CacheData × Option CacheData) :=
  match findCached h data sa data.used 0 with
  | none => none
  | some (some 0) => some (data, none)
  | some (some pos) => some (data.insert pos sa, some (data.insert pos sa))
  | some none =>
      let data := if data.used < maxCachedAddresses then { data with used := data.used + 1 } else data
      let pos := data.used - 1
      some (data.insert pos sa, some (data.insert pos sa))

/-- `open_address_cache`, for the file of a node if there is one -/
def openCacheData (file : Option CacheData) : CacheData :=
  let data : CacheData :=
    match file with
    | some data => if data.version ≠ addressCacheVersion then .zero else data
    | none => .zero
  let data := { data with version := addressCacheVersion }
  if maxCachedAddresses < data.used then { data with used := 0 } else data

/-- The cache of a node, in memory and on disk. -/
structure CacheState where
  data : CacheData
  file : Option CacheData

/-- No address has been added yet. -/
def CacheState.init : CacheState where
  data := openCacheData none
  file := none

/-- An address is added, or the cache is opened again by a daemon with another memory. -/
inductive CacheEvent where
  | add (h : Heap) (sa : RawAddr)
  | reopen (h : Heap)

/-- The texts in memory when it happens. -/
def CacheEvent.heap : CacheEvent → Heap
  | .add h _ | .reopen h => h

def CacheState.step (s : CacheState) : CacheEvent → Option CacheState
  | .add h sa =>
      match addRecentAddress h s.data sa with
      | none => none
      | some (data, none) => some { s with data := data }
      | some (data, some file) => some { data := data, file := some file }
  | .reopen _ => some { s with data := openCacheData s.file }

/-! ## What it is for -/

/-- The address that is meant. -/
def RawAddr.value (h : Heap) : RawAddr → Option SockAddr
  | .unspec => some .unspec
  | .unknown address port => do some (.unknown (← h address) (← h port))
  | .inet address port => some (.inet address.toList (port[0].toNat * 256 + port[1].toNat))
  | .inet6 address port _ _ =>
      some (.inet6 address.toList (port[0].toNat * 256 + port[1].toNat))

/-- The addresses in the cache. -/
def CacheData.cached (data : CacheData) : List RawAddr := slots data.address data.used

/-- The addresses that were added, the last one first. -/
def CacheEvent.history (e : CacheEvent) (history : List (Option SockAddr)) :
    List (Option SockAddr) :=
  match e with
  | .add h sa => sa.value h :: history
  | .reopen _ => history

/-- The cache is right: it holds the last addresses that were added and are not the same, and the
file means the same addresses to every daemon that opens it. -/
structure CacheRight (h : Heap) (s : CacheState) (history : List (Option SockAddr)) : Prop where
  recent : s.data.cached.map (RawAddr.value h) = recent maxCachedAddresses history
  bounded : s.data.cached.length ≤ maxCachedAddresses
  distinct : s.data.cached.Pairwise fun a b => ∃ c, sockaddrcmp h a b = some c ∧ c ≠ 0
  reloads : ∀ h', (openCacheData s.file).cached.map (RawAddr.value h') =
    s.data.cached.map (RawAddr.value h)

/-- The cache is right after each event. -/
def AlwaysCacheRight : CacheState → List (Option SockAddr) → List CacheEvent → Prop
  | _, _, [] => True
  | s, history, e :: events => ∃ s', s.step e = some s' ∧ CacheRight e.heap s' (e.history history) ∧
      AlwaysCacheRight s' (e.history history) events

/-! ## Addresses -/

section Addresses

variable {h : Heap} {a b : RawAddr} {x y : SockAddr}

lemma memcmp_eq_zero {s t : List UInt8} (hlen : s.length = t.length) :
    memcmp s t = 0 ↔ s = t := by
  induction s generalizing t with
  | nil =>
      obtain rfl := List.length_eq_zero_iff.mp hlen.symm
      simp [memcmp]
  | cons a s ih =>
      cases t with
      | nil => simp at hlen
      | cons b t =>
          rw [memcmp]
          by_cases hab : a = b
          · rw [if_pos hab, ih (by simpa using hlen), hab, List.cons_inj_right]
          · rw [if_neg hab]
            have hne : a.toNat ≠ b.toNat := fun e => hab (UInt8.toNat_inj.mp e)
            refine iff_of_false (by omega) fun e => hab (List.cons.inj e).1

lemma memcmp_toList_eq_zero {n : ℕ} {v w : Vector UInt8 n} :
    memcmp v.toList w.toList = 0 ↔ v = w := by
  rw [memcmp_eq_zero (by simp), Vector.toList_inj]

/-- A port is known by its number. -/
lemma port_inj {v w : Vector UInt8 2} :
    v[0].toNat * 256 + v[1].toNat = w[0].toNat * 256 + w[1].toNat ↔ v = w := by
  refine ⟨fun h => ?_, fun h => by rw [h]⟩
  have h1 := v[1].toNat_lt
  have h1' := w[1].toNat_lt
  have hfirst : v[0] = w[0] := UInt8.toNat_inj.mp (by omega)
  have hsecond : v[1] = w[1] := UInt8.toNat_inj.mp (by omega)
  refine Vector.ext fun i hi => ?_
  obtain rfl | rfl : i = 0 ∨ i = 1 := by omega
  · exact hfirst
  · exact hsecond

/-- Two comparisons, one after the other. -/
lemma first_else_second {c d : ℤ} {p q : Prop} (hc : c = 0 ↔ p) (hd : d = 0 ↔ q) :
    ∃ e, (if c ≠ 0 then some c else some d) = some e ∧ (e = 0 ↔ p ∧ q) := by
  by_cases hzero : c = 0
  · exact ⟨d, if_neg (not_not.mpr hzero), hd.trans (and_iff_right (hc.mp hzero)).symm⟩
  · exact ⟨c, if_pos hzero, iff_of_false hzero fun hpq => hzero (hc.mpr hpq.1)⟩

lemma value_unknown {address port : ℕ} : (RawAddr.unknown address port).value h = some x ↔
    ∃ s t, h address = some s ∧ h port = some t ∧ x = .unknown s t := by
  unfold RawAddr.value
  dsimp only [Option.bind_eq_bind]
  cases hs : h address with
  | none => simp
  | some s =>
      cases ht : h port with
      | none => simp
      | some t => simp [eq_comm]

/-- The family of the address that is meant. -/
def SockAddr.saFamily : SockAddr → ℤ
  | .unspec => 0
  | .unknown _ _ => 255
  | .inet _ _ => 2
  | .inet6 _ _ => 10

lemma family_of_value (ha : a.value h = some x) : a.family = x.saFamily := by
  cases a with
  | unknown p q =>
      obtain ⟨s, t, -, -, rfl⟩ := value_unknown.mp ha
      rfl
  | unspec | inet | inet6 =>
      obtain rfl := Option.some.inj ha
      rfl

/-- **`sockaddrcmp`** tells whether two addresses are meant to be the same. -/
lemma sockaddrcmp_spec (ha : a.value h = some x) (hb : b.value h = some y) :
    ∃ c, sockaddrcmp h a b = some c ∧ (c = 0 ↔ x = y) := by
  by_cases hfamily : a.family - b.family ≠ 0
  · refine ⟨_, if_pos hfamily, iff_of_false hfamily ?_⟩
    rintro rfl
    exact hfamily (sub_eq_zero.mpr ((family_of_value ha).trans (family_of_value hb).symm))
  · unfold sockaddrcmp
    rw [if_neg hfamily]
    rw [not_not, sub_eq_zero] at hfamily
    cases a with
    | unspec =>
        cases b <;> try cases hfamily
        exact ⟨0, rfl, iff_of_true rfl (Option.some.inj (ha.symm.trans hb))⟩
    | unknown p q =>
        cases b <;> try cases hfamily
        obtain ⟨s, t, hp, hq, rfl⟩ := value_unknown.mp ha
        obtain ⟨s', t', hp', hq', rfl⟩ := value_unknown.mp hb
        obtain ⟨c, hc, hzero⟩ := first_else_second (strcmp_eq_zero (s := s) (t := s'))
          (strcmp_eq_zero (s := t) (t := t'))
        refine ⟨c, ?_, by rw [hzero, SockAddr.unknown.injEq]⟩
        simp only [hp, hp', hq, hq', Option.bind_eq_bind, Option.bind_some]
        exact hc
    | inet v p =>
        cases b <;> try cases hfamily
        obtain rfl := Option.some.inj ha
        obtain rfl := Option.some.inj hb
        obtain ⟨c, hc, hzero⟩ := first_else_second (memcmp_toList_eq_zero (v := v))
          (memcmp_toList_eq_zero (v := p))
        refine ⟨c, hc, ?_⟩
        rw [hzero, SockAddr.inet.injEq, port_inj, Vector.toList_inj]
    | inet6 v p flowinfo scopeId =>
        cases b <;> try cases hfamily
        obtain rfl := Option.some.inj ha
        obtain rfl := Option.some.inj hb
        obtain ⟨c, hc, hzero⟩ := first_else_second (memcmp_toList_eq_zero (v := v))
          (memcmp_toList_eq_zero (v := p))
        refine ⟨c, hc, ?_⟩
        rw [hzero, SockAddr.inet6.injEq, port_inj, Vector.toList_inj]

/-- An address that points to its texts. -/
def RawAddr.isUnknown : RawAddr → Bool
  | .unknown _ _ => true
  | _ => false

/-- Any other address means the same to every process. -/
lemma value_heap (ha : a.isUnknown = false) (h h' : Heap) : a.value h = a.value h' := by
  cases a with
  | unknown p q => cases ha
  | unspec | inet | inet6 => rfl

lemma value_ne_none (ha : a.isUnknown = false) (h : Heap) : a.value h ≠ none := by
  cases a with
  | unknown p q => cases ha
  | unspec | inet | inet6 => simp [RawAddr.value]

/-- Where a process has no texts, no such address means anything. -/
lemma value_of_isUnknown (ha : a.isUnknown) : a.value (fun _ => none) = none := by
  cases a with
  | unknown p q => rfl
  | unspec | inet | inet6 => cases ha

lemma isUnknown_iff_of_value (h' : Heap) (heq : a.value h = b.value h') (hb : b.value h' ≠ none) :
    a.isUnknown = b.isUnknown := by
  obtain ⟨x, hx⟩ := Option.ne_none_iff_exists'.mp hb
  have ha := family_of_value (heq.trans hx)
  rw [← family_of_value hx] at ha
  cases a <;> cases b <;> first | rfl | cases ha

end Addresses

/-! ## One address -/

section Add

variable {h : Heap} {data : CacheData} {sa : RawAddr} {y : SockAddr}

/-- **`find_cached`** finds the address, if it is in the cache. -/
lemma findCached_spec (hsa : sa.value h = some y) {n i : ℕ}
    (hall : ∀ k, i ≤ k → k < i + n → (data.address k).value h ≠ none) :
    ∃ r, findCached h data sa n i = some r ∧
      (∀ pos, r = some pos → pos < i + n ∧ (data.address pos).value h = some y) ∧
      (r = none → ∀ k, i ≤ k → k < i + n → (data.address k).value h ≠ some y) := by
  induction n generalizing i with
  | zero => exact ⟨none, rfl, by simp, fun _ k hk hlt => by omega⟩
  | succ n ih =>
      obtain ⟨x, hx⟩ := Option.ne_none_iff_exists'.mp (hall i le_rfl (by omega))
      obtain ⟨c, hc, hzero⟩ := sockaddrcmp_spec hx hsa
      rw [findCached, hc]
      dsimp only
      by_cases h0 : c = 0
      · rw [if_pos h0]
        refine ⟨some i, rfl, fun pos hpos => ?_, by simp⟩
        obtain rfl := Option.some.inj hpos
        exact ⟨by omega, by rw [hx, hzero.mp h0]⟩
      · rw [if_neg h0]
        obtain ⟨r, hr, hsome, hnone⟩ := ih (i := i + 1) fun k hk hlt => hall k (by omega) (by omega)
        refine ⟨r, hr, fun pos hpos => ?_, fun hr k hk hlt => ?_⟩
        · have := hsome pos hpos
          exact ⟨by omega, this.2⟩
        · rcases Nat.eq_or_lt_of_le hk with rfl | hlt'
          · rw [hx]
            exact fun e => h0 (hzero.mpr (Option.some.inj e))
          · exact hnone hr k hlt' (by omega)

lemma cached_insert {pos : ℕ} (hpos : pos < data.used) (sa : RawAddr) :
    (data.insert pos sa).cached = sa :: data.cached.eraseIdx pos :=
  slots_shift data.address hpos sa

lemma cached_grow (data : CacheData) : ({ data with used := data.used + 1 } : CacheData).cached =
    data.cached ++ [data.address data.used] := by
  simp [CacheData.cached, slots, List.range_succ]

/-- A new address, for which the last one is lost if the cache is full. -/
lemma cached_push (hused : data.used ≤ maxCachedAddresses) (sa : RawAddr) :
    ((if data.used < maxCachedAddresses then { data with used := data.used + 1 } else data).insert
      ((if data.used < maxCachedAddresses then { data with used := data.used + 1 } else data).used - 1)
      sa).cached = (sa :: data.cached).take maxCachedAddresses := by
  have hlen : data.cached.length = data.used := length_slots _ _
  by_cases hfull : data.used < maxCachedAddresses
  · rw [if_pos hfull]
    dsimp only
    rw [Nat.add_sub_cancel, cached_insert (Nat.lt_succ_self _), cached_grow,
      List.eraseIdx_append_of_length_le hlen.le, hlen, Nat.sub_self, List.eraseIdx_zero,
      List.tail_cons, List.append_nil, List.take_of_length_le]
    rw [List.length_cons, hlen]
    exact hfull
  · rw [if_neg hfull]
    have hmax : data.used = maxCachedAddresses := by omega
    have hlast : data.used - 1 < data.used := by
      unfold maxCachedAddresses at hmax
      omega
    rw [cached_insert hlast, ← hlen, List.eraseIdx_length_sub_one, List.dropLast_eq_take, hlen, hmax]
    rfl

/-- **`add_recent_address`** moves the address to the front, or puts it there, and writes the file
unless nothing changes. -/
lemma addRecentAddress_spec (hsa : sa.value h = some y)
    (hall : ∀ r ∈ data.cached, r.value h ≠ none) (hnodup : (data.cached.map (RawAddr.value h)).Nodup)
    (hused : data.used ≤ maxCachedAddresses) :
    ∃ data' file, addRecentAddress h data sa = some (data', file) ∧
      data'.cached.map (RawAddr.value h) =
        touch maxCachedAddresses (some y) (data.cached.map (RawAddr.value h)) ∧
      (∀ r ∈ data'.cached, r = sa ∨ r ∈ data.cached) ∧ data'.version = data.version ∧
      (file = some data' ∨ file = none ∧ data' = data ∧ 0 < data.used) := by
  have hlen : (data.cached.map (RawAddr.value h)).length = data.used := by
    simp [CacheData.cached]
  have hget : ∀ k (hk : k < (data.cached.map (RawAddr.value h)).length),
      (data.cached.map (RawAddr.value h))[k] = (data.address k).value h := by
    intro k hk
    simp [CacheData.cached]
  obtain ⟨r, hr, hsome, hnone⟩ := findCached_spec hsa (n := data.used) (i := 0)
    fun k _ hlt => hall _ (by
      simp only [CacheData.cached, slots, List.mem_map, List.mem_range]
      exact ⟨k, by omega, rfl⟩)
  unfold addRecentAddress
  rw [hr]
  cases r with
  | some pos =>
      obtain ⟨hpos, hvalue⟩ := hsome pos rfl
      rw [Nat.zero_add] at hpos
      have hposL : pos < (data.cached.map (RawAddr.value h)).length := by rwa [hlen]
      have htouch := touch_of_mem (n := maxCachedAddresses) hnodup (by rw [hlen]; exact hused) hposL
      rw [hget pos hposL, hvalue] at htouch
      cases pos with
      | zero =>
          refine ⟨data, none, rfl, ?_, fun r hr => .inr hr, rfl, .inr ⟨rfl, rfl, hpos⟩⟩
          rw [htouch, List.eraseIdx_zero, ← hvalue, ← hget 0 hposL, ← List.drop_one,
            List.getElem_cons_drop, List.drop_zero]
      | succ pos =>
          refine ⟨data.insert (pos + 1) sa, _, rfl, ?_, ?_, rfl, .inl rfl⟩
          · rw [htouch, cached_insert hpos, List.map_cons, hsa, List.eraseIdx_map]
          · rw [cached_insert hpos]
            intro r hr
            rcases List.mem_cons.mp hr with rfl | hr
            · exact .inl rfl
            · exact .inr (List.mem_of_mem_eraseIdx hr)
  | none =>
      have hnotin : some y ∉ data.cached.map (RawAddr.value h) := by
        intro hmem
        obtain ⟨k, hk, heq⟩ := List.mem_iff_getElem.mp hmem
        rw [hget k hk] at heq
        rw [hlen] at hk
        exact hnone rfl k (Nat.zero_le k) (by omega) heq
      rw [touch_of_notMem hnotin]
      have hpush := cached_push hused sa
      refine ⟨_, _, rfl, ?_, fun r hr => ?_, ?_, .inl rfl⟩
      · rw [hpush, List.map_take, List.map_cons, hsa]
      · rw [hpush] at hr
        exact List.mem_cons.mp (List.mem_of_mem_take hr)
      · dsimp only [CacheData.insert]
        split <;> rfl

end Add

/-! ## Runs -/

/-- What holds as long as no address was added that points to its texts. -/
structure CacheKept (s : CacheState) (history : List (Option SockAddr)) : Prop where
  values : ∀ h, s.data.cached.map (RawAddr.value h) = recent maxCachedAddresses history
  plain : ∀ r ∈ s.data.cached, r.isUnknown = false
  version : s.data.version = addressCacheVersion
  file : s.file = some s.data ∨ s.file = none ∧ s.data.used = 0

section Runs

variable {s : CacheState} {history : List (Option SockAddr)} {h : Heap} {sa : RawAddr}

lemma CacheKept.init : CacheKept .init [] :=
  ⟨fun _ => rfl, List.forall_mem_nil _, rfl, .inr ⟨rfl, rfl⟩⟩

lemma CacheKept.used_le (hs : CacheKept s history) : s.data.used ≤ maxCachedAddresses := by
  have hlen := congrArg List.length (hs.values fun _ => none)
  rw [List.length_map, CacheData.cached, length_slots] at hlen
  rw [hlen]
  exact length_recent_le _ _

/-- The file means what is in memory. -/
lemma CacheKept.cached_open (hs : CacheKept s history) :
    (openCacheData s.file).cached = s.data.cached ∧
      ((openCacheData s.file = s.data) ∨ s.file = none ∧ (openCacheData s.file).used = 0) := by
  have hused := hs.used_le
  rcases hs.file with hfile | ⟨hfile, hzero⟩
  · have hopen : openCacheData s.file = s.data := by
      have hversion := hs.version
      rw [hfile]
      unfold openCacheData
      dsimp only
      rw [if_neg (not_not.mpr hversion), ← hversion, if_neg (not_lt.mpr hused)]
    rw [hopen]
    exact ⟨rfl, .inl rfl⟩
  · rw [hfile]
    refine ⟨?_, .inr ⟨rfl, rfl⟩⟩
    rw [CacheData.cached, CacheData.cached, hzero]
    rfl

lemma CacheKept.distinct (hs : CacheKept s history) (h : Heap) :
    s.data.cached.Pairwise fun a b => ∃ c, sockaddrcmp h a b = some c ∧ c ≠ 0 := by
  have hnodup : (s.data.cached.map (RawAddr.value h)).Nodup := by
    rw [hs.values]
    exact nodup_recent _ _
  refine (List.pairwise_map.mp hnodup).imp_of_mem fun {a b} ha hb hne => ?_
  obtain ⟨x, hx⟩ := Option.ne_none_iff_exists'.mp (value_ne_none (hs.plain a ha) h)
  obtain ⟨y, hy⟩ := Option.ne_none_iff_exists'.mp (value_ne_none (hs.plain b hb) h)
  obtain ⟨c, hc, hzero⟩ := sockaddrcmp_spec hx hy
  refine ⟨c, hc, fun h0 => hne ?_⟩
  rw [hx, hy, hzero.mp h0]

lemma CacheKept.right (hs : CacheKept s history) (h : Heap) : CacheRight h s history where
  recent := hs.values h
  bounded := by
    rw [CacheData.cached, length_slots]
    exact hs.used_le
  distinct := hs.distinct h
  reloads h' := by rw [hs.cached_open.1, hs.values, hs.values]

/-- An address that does not point to its texts is added. -/
lemma CacheKept.add (hs : CacheKept s history) (hsa : sa.isUnknown = false) (h : Heap) :
    ∃ s', s.step (.add h sa) = some s' ∧ CacheKept s' (sa.value h :: history) := by
  obtain ⟨y, hy⟩ := Option.ne_none_iff_exists'.mp (value_ne_none hsa h)
  have hnodup : (s.data.cached.map (RawAddr.value h)).Nodup := by
    rw [hs.values]
    exact nodup_recent _ _
  obtain ⟨data, file, hadd, hvalues, hmem, hversion, hfile⟩ := addRecentAddress_spec hy
    (fun r hr => value_ne_none (hs.plain r hr) h) hnodup hs.used_le
  have hplain : ∀ r ∈ data.cached, r.isUnknown = false := by
    intro r hr
    rcases hmem r hr with rfl | hr
    · exact hsa
    · exact hs.plain r hr
  have hrecent : ∀ h', data.cached.map (RawAddr.value h') =
      recent maxCachedAddresses (sa.value h :: history) := by
    intro h'
    rw [recent_cons, ← hs.values h, hy, ← hvalues]
    exact List.map_congr_left fun r hr => value_heap (hplain r hr) h' h
  unfold CacheState.step
  dsimp only
  rw [hadd]
  rcases hfile with rfl | ⟨rfl, rfl, hused⟩
  · exact ⟨_, rfl, hrecent, hplain, hversion.trans hs.version, .inl rfl⟩
  · exact ⟨s, rfl, hrecent, hplain, hs.version, hs.file⟩

/-- The cache is opened again. -/
lemma CacheKept.reopen (hs : CacheKept s history) (h : Heap) :
    ∃ s', s.step (.reopen h) = some s' ∧ CacheKept s' history := by
  obtain ⟨hcached, hopen⟩ := hs.cached_open
  refine ⟨_, rfl, fun h => ?_, ?_, ?_, ?_⟩
  · dsimp only
    rw [hcached]
    exact hs.values h
  · dsimp only
    rw [hcached]
    exact hs.plain
  · rcases hopen with hopen | ⟨hfile, -⟩
    · dsimp only
      rw [hopen]
      exact hs.version
    · dsimp only
      rw [hfile]
      rfl
  · rcases hopen with hopen | ⟨hfile, hused⟩
    · dsimp only
      rcases hs.file with hfile | hfile
      · exact .inl (by rw [hopen, hfile])
      · rw [hopen]
        exact .inr hfile
    · exact .inr ⟨hfile, hused⟩

/-- An address that is added and points to its texts, is in the file with its pointers. -/
lemma not_right_unknown {s' : CacheState} (hsa : sa.isUnknown) (hvalue : sa.value h ≠ none) :
    ¬ CacheRight h s' (sa.value h :: history) := by
  intro hright
  have hrecent := hright.recent
  have hreloads := hright.reloads
  rw [hrecent] at hreloads
  have hcons : ∃ l, recent maxCachedAddresses (sa.value h :: history) = sa.value h :: l :=
    ⟨_, rfl⟩
  obtain ⟨l, hl⟩ := hcons
  rw [hl] at hreloads
  obtain ⟨r, rs, hcached, hr, -⟩ := List.map_eq_cons_iff.mp (hreloads h)
  have hunknown : r.isUnknown := by
    rw [isUnknown_iff_of_value h hr hvalue]
    exact hsa
  have hlater := hreloads fun _ => none
  rw [hcached, List.map_cons, value_of_isUnknown hunknown] at hlater
  exact hvalue (List.cons.inj hlater).1.symm

/-- Nothing that points to its texts is among the addresses that are added. -/
def NoUnknown (events : List CacheEvent) : Prop :=
  ∀ h sa, CacheEvent.add h sa ∈ events → sa.isUnknown = false

/-- The rest of a run that was right so far. -/
lemma CacheKept.always_iff (hs : CacheKept s history) {events : List CacheEvent}
    (hvalid : ∀ h sa, .add h sa ∈ events → sa.value h ≠ none) :
    AlwaysCacheRight s history events ↔ NoUnknown events := by
  induction events generalizing s history with
  | nil => exact iff_of_true trivial fun h sa hmem => absurd hmem List.not_mem_nil
  | cons e events ih =>
      have hvalid' : ∀ h sa, .add h sa ∈ events → sa.value h ≠ none := fun h sa hmem =>
        hvalid h sa (List.mem_cons_of_mem e hmem)
      cases e with
      | add h sa =>
          have hhead : sa.value h ≠ none := hvalid h sa List.mem_cons_self
          have hsplit : NoUnknown (.add h sa :: events) ↔ sa.isUnknown = false ∧ NoUnknown events := by
            constructor
            · exact fun hall => ⟨hall h sa List.mem_cons_self, fun h' sa' hmem =>
                hall h' sa' (List.mem_cons_of_mem _ hmem)⟩
            · rintro ⟨hsa, hrest⟩ h' sa' hmem
              rcases List.mem_cons.mp hmem with heq | hmem
              · cases heq
                exact hsa
              · exact hrest h' sa' hmem
          rw [hsplit]
          by_cases hsa : sa.isUnknown
          · refine iff_of_false ?_ fun hboth => ?_
            · rintro ⟨s', -, hright, -⟩
              exact not_right_unknown hsa hhead hright
            · rw [hsa] at hboth
              cases hboth.1
          · rw [Bool.not_eq_true] at hsa
            obtain ⟨s', hstep, hkept⟩ := hs.add hsa h
            rw [and_iff_right hsa, ← ih hkept hvalid']
            constructor
            · rintro ⟨s'', hstep', -, hrest⟩
              obtain rfl := Option.some.inj (hstep.symm.trans hstep')
              exact hrest
            · exact fun hrest => ⟨s', hstep, hkept.right h, hrest⟩
      | reopen h =>
          have hsplit : NoUnknown (.reopen h :: events) ↔ NoUnknown events := by
            constructor
            · exact fun hall h' sa' hmem => hall h' sa' (List.mem_cons_of_mem _ hmem)
            · intro hrest h' sa' hmem
              rcases List.mem_cons.mp hmem with heq | hmem
              · cases heq
              · exact hrest h' sa' hmem
          obtain ⟨s', hstep, hkept⟩ := hs.reopen h
          rw [hsplit, ← ih hkept hvalid']
          constructor
          · rintro ⟨s'', hstep', -, hrest⟩
            obtain rfl := Option.some.inj (hstep.symm.trans hstep')
            exact hrest
          · exact fun hrest => ⟨s', hstep, hkept.right h, hrest⟩

end Runs

/-- Two addresses are added, the first one again, and the daemon is started anew. -/
def twoAddresses : List CacheEvent :=
  let a := .inet #v[192, 0, 2, 1] #v[2, 143]
  let b := .inet #v[192, 0, 2, 2] #v[2, 143]
  let h := fun _ => none
  [.add h a, .add h b, .add h a, .reopen h]

/-- An address with a name in it is added. -/
def namedAddress : List CacheEvent :=
  [.add (fun p => some (if p = 0 then ascii "example" else ascii "655")) (.unknown 0 1)]

end Tinc
