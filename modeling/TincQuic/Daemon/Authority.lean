import TincQuic.Daemon.Run

/-!
# A daemon's authority over its own state

Peers tell a daemon about edges and subnets, also about its own.  What they say about its own is
answered with a correction and otherwise ignored.

* `OwnKept` compares two states: the edges that start at `myself` and the subnets that `myself`
  owns are the same, except that a learned MAC subnet may have been made to expire.
* There is one lemma for every operation that a handler applies to what belongs to *others*.
* **No sequence of ADD_EDGE, DEL_EDGE, ADD_SUBNET and DEL_SUBNET changes the own state**:
  `own_state_kept`.
-/

namespace Tinc

open Bytes CText Function

variable {d d' d'' : Daemon}

/-- What may happen to an own subnet: it stays, or it is a learned MAC subnet and is stamped. -/
structure SubnetKept (s s' : Subnet) : Prop where
  owner : s'.owner = s.owner
  net : s'.net = s.net
  weight : s'.weight = s.weight
  expires : s'.expires = s.expires ∨
    ((∃ address, s.net = .mac address) ∧ s.expires ≠ 0 ∧ s'.expires = 1)

/-- The own edges and subnets of `d` are those of `d'`, in all indexes. -/
structure OwnKept (d d' : Daemon) : Prop where
  config : d'.config = d.config
  edgeTree : d'.edgeTree d.myself = d.edgeTree d.myself
  weightTree : d'.edgeWeightTree.filter (fun e => (d'.edge e).fromNode = d.myself) =
    d.edgeWeightTree.filter (fun e => (d.edge e).fromNode = d.myself)
  edge : ∀ e < d.newEdge, (d.edge e).fromNode = d.myself → (d'.edge e).said = (d.edge e).said
  newEdge : d.newEdge ≤ d'.newEdge
  nodeSubnets : d'.nodeSubnets d.myself = d.nodeSubnets d.myself
  subnetTree : d'.subnetTree.filter (fun s => (d'.subnet s).owner = some d.myself) =
    d.subnetTree.filter (fun s => (d.subnet s).owner = some d.myself)
  subnet : ∀ s < d.newSubnet, (d.subnet s).owner = some d.myself →
    SubnetKept (d.subnet s) (d'.subnet s)
  newSubnet : d.newSubnet ≤ d'.newSubnet

lemma SubnetKept.refl (s : Subnet) : SubnetKept s s := ⟨rfl, rfl, rfl, .inl rfl⟩

lemma SubnetKept.trans {s s' s'' : Subnet} (h : SubnetKept s s') (h' : SubnetKept s' s'') :
    SubnetKept s s'' := by
  refine ⟨h'.owner.trans h.owner, h'.net.trans h.net, h'.weight.trans h.weight, ?_⟩
  rcases h.expires with he | ⟨hm, h0, h1⟩ <;> rcases h'.expires with he' | ⟨hm', h0', h1'⟩
  · exact .inl (he'.trans he)
  · exact .inr ⟨by rwa [h.net] at hm', by rwa [he] at h0', h1'⟩
  · exact .inr ⟨hm, h0, he'.trans h1⟩
  · exact .inr ⟨hm, h0, h1'⟩

namespace OwnKept

lemma refl (d : Daemon) : OwnKept d d :=
  ⟨rfl, rfl, rfl, fun _ _ _ => rfl, le_refl _, rfl, rfl, fun _ _ _ => .refl _, le_refl _⟩

lemma trans (h : OwnKept d d') (h' : OwnKept d' d'') : OwnKept d d'' := by
  have hm : d'.myself = d.myself := congrArg Config.myself h.config
  have hE := h'.edgeTree
  have hW := h'.weightTree
  have hS := h'.nodeSubnets
  have hT := h'.subnetTree
  rw [hm] at hE hW hS hT
  refine ⟨h'.config.trans h.config, hE.trans h.edgeTree, hW.trans h.weightTree, ?_,
    h.newEdge.trans h'.newEdge, hS.trans h.nodeSubnets, hT.trans h.subnetTree, ?_,
    h.newSubnet.trans h'.newSubnet⟩
  · intro e he hown
    have h1 := h.edge e he hown
    refine (h'.edge e (he.trans_le h.newEdge) ?_).trans h1
    rw [hm, ← hown]
    exact (Edge.said_inj h1).1
  · intro s hs hown
    have h1 := h.subnet s hs hown
    exact h1.trans (h'.subnet s (hs.trans_le h.newSubnet) (by rw [hm, h1.owner, hown]))

lemma of_same (h : SameIndexes d d') : OwnKept d d' := by
  obtain ⟨_, _, _, _, _, _, _, rfl⟩ := h
  exact ⟨rfl, rfl, rfl, fun _ _ _ => rfl, le_refl _, rfl, rfl, fun _ _ _ => .refl _, le_refl _⟩

lemma ensureNode (h : Filed d) (n : Name) : OwnKept d (d.ensureNode n) := by
  unfold Daemon.ensureNode
  split
  · rename_i hn
    have hne : d.myself ≠ n := by
      rintro rfl
      exact (lookupNode_eq_none h.nodes).mp hn h.myself
    refine ⟨rfl, ?_, rfl, fun _ _ _ => rfl, le_refl _, ?_, rfl, fun _ _ _ => .refl _, le_refl _⟩
    · simp [Daemon.addNode, hne]
    · simp [Daemon.addNode, hne]
  · exact refl d

/-! ## Edges of others -/

/-- Edge `e` changes, but only in its `reverse` if it is an own edge. -/
lemma setEdge (e : EdgeId) {f : Edge → Edge} (hf : ∀ x, (f x).fromNode = x.fromNode)
    (hown : (d.edge e).fromNode = d.myself → (f (d.edge e)).said = (d.edge e).said) :
    OwnKept d (d.setEdge e f) := by
  have hfrom : ∀ i, ((d.setEdge e f).edge i).fromNode = (d.edge i).fromNode := by
    intro i
    by_cases hi : i = e
    · subst hi
      simp [Daemon.setEdge, hf]
    · simp [Daemon.setEdge, hi]
  refine ⟨rfl, rfl, ?_, fun i _ hi => ?_, le_refl _, rfl, rfl, fun _ _ _ => .refl _, le_refl _⟩
  · simp only [hfrom]
    rfl
  · by_cases hie : i = e
    · subst hie
      simpa [Daemon.setEdge] using hown hi
    · simp [Daemon.setEdge, hie]

/-- Pointers to reverses may change. -/
lemma of_said {edge : EdgeId → Edge} (h : ∀ i, (edge i).said = (d.edge i).said) :
    OwnKept d { d with edge := edge } := by
  have hfrom : ∀ i, (edge i).fromNode = (d.edge i).fromNode := fun i => (Edge.said_inj (h i)).1
  refine ⟨rfl, rfl, ?_, fun i _ _ => h i, le_refl _, rfl, rfl, fun _ _ _ => .refl _, le_refl _⟩
  simp only [hfrom]

lemma allocEdge (h : Filed d) (edge : Edge) : OwnKept d (d.allocEdge edge).1 := by
  have hold : ∀ e < d.newEdge, (d.allocEdge edge).1.edge e = d.edge e := by
    intro e he
    simp [Daemon.allocEdge, he.ne]
  refine ⟨rfl, rfl, ?_, fun e he _ => by rw [hold e he], Nat.le_succ _, rfl, rfl,
    fun _ _ _ => .refl _, le_refl _⟩
  refine List.filter_congr fun e he => ?_
  rw [hold e (h.weight e he)]

lemma insertWeight {e : EdgeId} (he : (d.edge e).fromNode ≠ d.myself) :
    OwnKept d (d.insertWeight e) := by
  refine ⟨rfl, rfl, ?_, fun _ _ _ => rfl, le_refl _, rfl, rfl, fun _ _ _ => .refl _, le_refl _⟩
  simp only [Daemon.insertWeight]
  cases hins : OrdList.insert (fun i => edgeWeightCompare (d.edge e) (d.edge i)) e
      d.edgeWeightTree with
  | none => rfl
  | some l => exact OrdList.filter_insert hins (decide_eq_false he)

lemma edgeWeightCompare_eq_zero {a b : Edge} (h : edgeWeightCompare a b = 0) :
    a.fromNode = b.fromNode ∧ a.toNode = b.toNode := by
  unfold edgeWeightCompare at h
  dsimp only at h
  split at h
  · exact absurd h (by assumption)
  · split at h
    · exact absurd h (by assumption)
    · rename_i h1
      exact ⟨strcmp_eq_zero.mp (not_not.mp h1), strcmp_eq_zero.mp h⟩

lemma deleteWeight {e : EdgeId} (he : (d.edge e).fromNode ≠ d.myself) :
    OwnKept d (d.deleteWeight e) := by
  refine ⟨rfl, rfl, ?_, fun _ _ _ => rfl, le_refl _, rfl, rfl, fun _ _ _ => .refl _, le_refl _⟩
  refine OrdList.filter_delete fun i _ hi h0 => he ?_
  rw [(edgeWeightCompare_eq_zero h0).1]
  exact of_decide_eq_true hi

lemma updateEdgeTree {n : Name} (hn : n ≠ d.myself) (tree : List EdgeId) :
    OwnKept d { d with edgeTree := update d.edgeTree n tree } := by
  refine ⟨rfl, ?_, rfl, fun _ _ _ => rfl, le_refl _, rfl, rfl, fun _ _ _ => .refl _, le_refl _⟩
  simp [hn.symm]

lemma edgeAdd {e : EdgeId} (he : (d.edge e).fromNode ≠ d.myself) : OwnKept d (d.edgeAdd e) := by
  unfold Daemon.edgeAdd
  dsimp only
  split
  · exact refl d
  · rename_i tree _
    have h := updateEdgeTree he tree
    generalize hd' : { d with edgeTree := update d.edgeTree (d.edge e).fromNode tree } = d' at h ⊢
    have he' : (d'.edge e).fromNode ≠ d'.myself := by
      subst hd'
      exact he
    have hl : OwnKept d' (d'.linkReverse e) := by
      rw [linkReverse_eq]
      exact of_said (linkReverse_said d' e)
    refine (h.trans hl).trans (insertWeight ?_)
    rw [(Edge.said_inj (linkReverse_said d' e e)).1, Daemon.myself, hl.config]
    exact he'

lemma edgeDel {e : EdgeId} (he : (d.edge e).fromNode ≠ d.myself) : OwnKept d (d.edgeDel e) := by
  have hfrom := (Edge.said_inj (unlinkReverse_said d e e)).1
  have hu : OwnKept d (d.unlinkReverse e) := by
    rw [unlinkReverse_eq]
    exact of_said (unlinkReverse_said d e)
  have he' : ((d.unlinkReverse e).edge e).fromNode ≠ (d.unlinkReverse e).myself := by
    rw [hfrom, Daemon.myself, hu.config]
    exact he
  have hw := hu.trans (deleteWeight he')
  unfold Daemon.edgeDel
  refine hw.trans (updateEdgeTree ?_ _)
  rw [Daemon.myself, hw.config]
  exact hfrom.trans_ne he

lemma addNewEdge (h : Filed d) {edge : Edge} (he : edge.fromNode ≠ d.myself) :
    OwnKept d (d.addNewEdge edge) := by
  refine (allocEdge h edge).trans (edgeAdd ?_)
  simpa [Daemon.allocEdge] using he

lemma changeWeight {e : EdgeId} (he : (d.edge e).fromNode ≠ d.myself) (weight : ℤ) :
    OwnKept d (d.changeWeight e weight) := by
  have hset : ∀ {d : Daemon}, (d.edge e).fromNode ≠ d.myself →
      OwnKept d (d.setEdge e ({ · with weight := weight })) :=
    fun he => setEdge e (fun _ => rfl) (fun h => absurd h he)
  unfold Daemon.changeWeight
  split
  · exact refl d
  · split
    · exact hset he
    · rename_i node hnode
      refine ((deleteWeight he).trans (hset he)).trans (insertWeight ?_)
      -- the entry that was unlinked starts where `e` does
      have hn := (edgeWeightCompare_eq_zero (OrdList.search_some hnode).2).1
      by_cases hne : node = e
      · subst hne
        simpa [Daemon.setEdge, Daemon.deleteWeight] using he
      · rw [hn] at he
        simpa [Daemon.setEdge, Daemon.deleteWeight, hne] using he

lemma changeEdge {e : EdgeId} (he : (d.edge e).fromNode ≠ d.myself) (r : AddEdge) :
    OwnKept d (d.changeEdge e r) := by
  refine OwnKept.trans (setEdge e ?_ (fun h => absurd h he)) (changeWeight ?_ r.weight)
  · exact fun _ => rfl
  · simpa [Daemon.setEdge] using he

lemma cleanUp (h : Filed d) {n : Name} (hn : n = d.myself → (d.node n).reachable = true) :
    OwnKept d (d.cleanUp n) := by
  unfold Daemon.cleanUp
  split
  · exact refl d
  · rename_i hr
    split
    · exact refl d
    · rename_i e he
      have hown : (d.edge e).fromNode ≠ d.myself := by
        rw [(h.edge n e (OrdList.search_some he).1).1]
        exact fun h => hr (hn h)
      split
      · exact edgeDel hown
      · have hs := SameIndexes.sendDelEdge d .everyone (d.edge e).fromNode (d.edge e).toNode
        refine (of_same hs).trans (edgeDel ?_)
        exact hs.keeps (P := fun d' => (d'.edge e).fromNode ≠ d'.myself)
          (fun _ _ _ _ _ _ _ h => h) hown

/-! ## Subnets of others -/

lemma owner_of_subnetCompare {a b : Subnet} {m n : Name} (ha : a.owner = some m)
    (hb : b.owner = some n) (h : subnetCompare a b = 0) : m = n := by
  have hw : compareWeightOwner a b = 0 → m = n := by
    intro h
    unfold compareWeightOwner at h
    dsimp only at h
    split at h
    · exact absurd h (by assumption)
    · rw [ha, hb] at h
      exact strcmp_eq_zero.mp h
  unfold subnetCompare comparePrefix at h
  split at h
  · split at h
    · exact absurd h (by assumption)
    · exact hw h
  · split at h
    · exact absurd h (by assumption)
    · split at h
      · exact absurd h (by assumption)
      · exact hw h
  · split at h
    · exact absurd h (by assumption)
    · split at h
      · exact absurd h (by assumption)
      · exact hw h
  all_goals simp at h

lemma filter_insertSubnet {i : SubnetId} {l : List SubnetId} {p : SubnetId → Bool}
    (hp : p i = false) : (d.insertSubnet i l).filter p = l.filter p := by
  unfold Daemon.insertSubnet
  cases hi : OrdList.insert (fun k => subnetCompare (d.subnet i) (d.subnet k)) i l with
  | none => rfl
  | some l' => exact OrdList.filter_insert hi hp

lemma subnetAdd (h : Filed d) {owner : Name} (ho : owner ≠ d.myself) (s : Subnet) :
    OwnKept d (d.subnetAdd (some owner) s) := by
  have hold : ∀ i < d.newSubnet, (d.subnetAdd (some owner) s).subnet i = d.subnet i := by
    intro i hi
    simp [Daemon.subnetAdd, hi.ne]
  refine ⟨rfl, rfl, rfl, fun _ _ _ => rfl, le_refl _, ?_, ?_, fun i hi _ => ?_, Nat.le_succ _⟩
  · simp [Daemon.subnetAdd, ho.symm]
  · -- the new subnet is not ours, so its insertion does not show
    refine (filter_insertSubnet ?_).trans (List.filter_congr fun i hi => ?_)
    · simpa [Daemon.subnetAdd] using ho
    · rw [hold i (h.tree i hi)]
  · rw [hold i hi]
    exact .refl _

lemma subnetDel {owner : Name} (ho : owner ≠ d.myself) {s : SubnetId}
    (hs : (d.subnet s).owner = some owner) : OwnKept d (d.subnetDel (some owner) s) := by
  refine ⟨rfl, rfl, rfl, fun _ _ _ => rfl, le_refl _, ?_, ?_, fun _ _ _ => .refl _, le_refl _⟩
  · simp [Daemon.subnetDel, ho.symm]
  · exact OrdList.filter_delete fun i _ hi h0 =>
      ho (owner_of_subnetCompare hs (of_decide_eq_true hi) h0)

lemma net_of_subnetCompare {a b : Subnet} {address : List UInt8} (ha : a.net = .mac address)
    (h : subnetCompare a b = 0) : ∃ address', b.net = .mac address' := by
  unfold subnetCompare at h
  rw [ha] at h
  cases hb : b.net with
  | mac address' => exact ⟨address', rfl⟩
  | ipv4 _ _ => simp [hb] at h
  | ipv6 _ _ => simp [hb] at h

lemma handoff (s : Subnet) : OwnKept d (d.handoff s) := by
  unfold Daemon.handoff
  split
  · rename_i address hmac
    split
    · rename_i old hold
      split
      · exact refl d
      · rename_i hexp
        obtain ⟨-, h0⟩ := OrdList.search_some hold
        have howner : ∀ i, (update d.subnet old { d.subnet old with expires := 1 } i).owner =
            (d.subnet i).owner := by
          intro i
          by_cases hi : i = old
          · subst hi
            simp
          · simp [hi]
        refine ⟨rfl, rfl, rfl, fun _ _ _ => rfl, le_refl _, rfl, ?_, fun i _ _ => ?_, le_refl _⟩
        · simp only [howner]
        · by_cases hi : i = old
          · subst hi
            exact ⟨by simp, by simp, by simp,
              .inr ⟨net_of_subnetCompare hmac h0, hexp, by simp⟩⟩
          · simp only [update_of_ne hi]
            exact .refl _
    · exact refl d
  · exact refl d

/-! ## The handlers -/

lemma applyAddEdge (h : Filed d) (c : ConnId) (request : Text) (r : AddEdge) :
    OwnKept d (d.applyAddEdge c request r) := by
  unfold Daemon.applyAddEdge
  split
  · rename_i e he
    have hfrom := (h.edge _ e (OrdList.search_some he).1).1
    split
    · exact refl d
    · split
      · exact of_same (SameIndexes.sendAddEdge d _ _)
      · rename_i hne
        have hs := (SameIndexes.tellRest (d.changeEdge e r) c request).trans (SameIndexes.graph _)
        exact (changeEdge (by rwa [hfrom]) r).trans (of_same hs)
  · split
    · exact (of_same ⟨_, _, _, _, _, _, _, rfl⟩).trans (of_same (SameIndexes.sendDelEdge _ _ _ _))
    · rename_i hne
      have hs := (SameIndexes.tellRest (d.addNewEdge (d.edgeOf r)) c request).trans
        (SameIndexes.graph _)
      exact (addNewEdge h hne).trans (of_same hs)

lemma applyDelEdge (h : Filed d) (c : ConnId) (request : Text) (fromName toName : Name) :
    OwnKept d (d.applyDelEdge c request fromName toName) := by
  unfold Daemon.applyDelEdge
  split
  · exact refl d
  · rename_i e he
    split
    · exact (of_same ⟨_, _, _, _, _, _, _, rfl⟩).trans (of_same (SameIndexes.sendAddEdge _ _ _))
    · rename_i hne
      have ht := SameIndexes.tellRest d c request
      have hdel : OwnKept d ((d.tellRest c request).edgeDel e) :=
        (of_same ht).trans (edgeDel (ht.keeps (P := fun d => (d.edge e).fromNode ≠ d.myself)
          (fun _ _ _ _ _ _ _ h => h) hne))
      have hfiled := (h.of_same ht).edgeDel e
      refine (hdel.trans (of_same (SameIndexes.graph _))).trans
        (cleanUp (hfiled.of_same (SameIndexes.graph _)) ?_)
      rintro rfl
      exact graph_myself hfiled.myself

lemma applyAddSubnet (h : Filed d) (c : ConnId) (request : Text) (owner : Name) (s : Subnet) :
    OwnKept d (d.applyAddSubnet c request owner s) := by
  unfold Daemon.applyAddSubnet
  split
  · exact refl d
  · split
    · exact of_same (SameIndexes.sendSubnet d _ _ _ _)
    · rename_i hne
      split
      · exact refl d
      · split
        · exact of_same (SameIndexes.broadcastMeta d _ _)
        · exact ((subnetAdd h hne s).trans (of_same (SameIndexes.tellRest _ c request))).trans
            (handoff s)

lemma applyDelSubnet (h : Filed d) (c : ConnId) (request : Text) (owner : Name) (s : Subnet) :
    OwnKept d (d.applyDelSubnet c request owner s) := by
  unfold Daemon.applyDelSubnet
  have ht := SameIndexes.tellRest d c request
  split
  · split
    · exact of_same (SameIndexes.broadcastMeta d _ _)
    · exact refl d
  · rename_i find hfind
    split
    · exact of_same (SameIndexes.sendSubnet d _ _ _ _)
    · rename_i hne
      split
      · exact refl d
      · split
        · exact of_same ht
        · have hfiled := h.of_same ht
          have hown := (h.subnet owner find (OrdList.search_some hfind).1).1
          refine (of_same ht).trans (subnetDel ?_ ?_)
          · exact ht.keeps (P := fun d => owner ≠ d.myself) (fun _ _ _ _ _ _ _ h => h) hne
          · exact ht.keeps (P := fun d => (d.subnet find).owner = some owner)
              (fun _ _ _ _ _ _ _ h => h) hown

end OwnKept

/-! ## Every sequence of requests -/

/-- The requests by which peers tell about edges and subnets. -/
inductive Tidings where
  | addEdge | delEdge | addSubnet | delSubnet

/-- The request of that kind. -/
def Tidings.request : Tidings → Request
  | addEdge => .addEdge
  | delEdge => .delEdge
  | addSubnet => .addSubnet
  | delSubnet => .delSubnet

/-- Handlers called one after the other, on whatever connections. -/
def handleAll (d : Daemon) : List (Tidings × ConnId × Text) → Daemon
  | [] => d
  | (t, c, request) :: rest => handleAll (handler t.request d c request).1 rest

lemma OwnKept.handler (h : Filed d) (t : Tidings) (c : ConnId) (request : Text) :
    OwnKept d (handler t.request d c request).1 := by
  have hs := OwnKept.of_same (SameIndexes.seenRequest d request)
  have hf := h.of_same (SameIndexes.seenRequest d request)
  cases t with
  | addEdge =>
      rcases addEdgeH_cases d c request with he | he | ⟨r, -, -, -, he⟩ <;>
        simp only [Tidings.request, Tinc.handler, he]
      · exact .refl d
      · exact hs
      · have h1 := ensureNode hf r.fromName
        have h2 := ensureNode (hf.ensureNode r.fromName) r.toName
        exact ((hs.trans h1).trans h2).trans
          (applyAddEdge ((hf.ensureNode _).ensureNode _) c request r)
  | delEdge =>
      rcases delEdgeH_cases d c request with he | he | ⟨_, _, -, -, -, -, -, he⟩ <;>
        simp only [Tidings.request, Tinc.handler, he]
      · exact .refl d
      · exact hs
      · exact hs.trans (applyDelEdge hf c request _ _)
  | addSubnet =>
      rcases addSubnetH_cases d c request with he | he | ⟨name, s, -, he⟩ <;>
        simp only [Tidings.request, Tinc.handler, he]
      · exact .refl d
      · exact hs
      · exact (hs.trans (ensureNode hf name)).trans
          (applyAddSubnet (hf.ensureNode name) c request name s)
  | delSubnet =>
      rcases delSubnetH_cases d c request with he | he | ⟨name, s, he⟩ <;>
        simp only [Tidings.request, Tinc.handler, he]
      · exact .refl d
      · exact hs
      · exact hs.trans (applyDelSubnet hf c request name s)

lemma OwnKept.handleAll (h : Filed d) (requests : List (Tidings × ConnId × Text)) :
    OwnKept d (handleAll d requests) := by
  induction requests generalizing d with
  | nil => exact .refl d
  | cons r rest ih =>
      obtain ⟨t, c, request⟩ := r
      exact (OwnKept.handler h t c request).trans (ih (h.handler t.request c request))

/-- In every reachable state, no sequence of ADD_EDGE, DEL_EDGE, ADD_SUBNET and DEL_SUBNET, with
any text and from any peers, changes the daemon's own edges and subnets. -/
theorem own_state_kept {config : Config} {rand : ℕ → ℕ} (h : Reachable config rand d)
    (requests : List (Tidings × ConnId × Text)) : OwnKept d (handleAll d requests) :=
  OwnKept.handleAll h.filed requests

/-- A daemon `a` with an active connection to `b` and a learned MAC subnet. -/
def ownStateExample : List Event :=
  [.connectionAdd 0 { name := ascii "<unknown>" }, .receive 0 (ascii "0 b 17.7"),
    .receive 0 (ascii "4 655 10 c"),
    .subnetAdd (some (ascii "a")) ⟨none, .mac [1, 2, 3, 4, 5, 6], 10, 77⟩]

theorem own_state_kept_example :
    let d := (Daemon.init (.plain (ascii "a")) id).run ownStateExample
    let d' := handleAll d [(.delEdge, 0, ascii "13 1 a b"), (.addEdge, 0, ascii "12 2 a b x 1 0 5"),
      (.addEdge, 0, ascii "12 3 b a x 1 0 5"), (.addSubnet, 0, ascii "10 4 b 1:2:3:4:5:6")]
    OwnKept d d' ∧ d.edgeTree (ascii "a") = [0] ∧ d'.edgeTree (ascii "b") = [1] ∧
      (d'.subnet 0).expires = 1 := by
  refine ⟨own_state_kept (Reachable.run .init _ ?_) _, ?_⟩
  · intro d e he
    simp only [ownStateExample, List.mem_cons, List.not_mem_nil, or_false] at he
    rcases he with rfl | rfl | rfl | rfl <;> simp [Event.Allowed]
  · decide +kernel

end Tinc
