import Kitp.ApprovalViews
import Kitp.CardMoveRuns
import Mathlib.Algebra.Order.BigOperators.Group.List
import Mathlib.Algebra.Order.Group.Nat

/-! What the task page makes of `approval.list`, against what the server's reads count. -/
namespace Kitp.Approvals
open Kitp.Store Kitp.Accounts Kitp.Visibility Kitp.Buckets

variable (acc : Access) (s : Tables) (taskId : Int) (list : ListOutput) (viewer : Viewer)

/-- The requests the page shows open. -/
def openViews : List RequestView :=
  (buildApprovalEdges list viewer).flatMap fun e => e.requests.filter (·.opened)

/-- `approval_waiting_on` for one person, over the requests on an edge alone. -/
def edgeWaits (key : Int×Int) (person : Int) : Prop :=
  ∃ o∈approvalOpen s taskId, o.fromId=some key.1∧o.toId=some key.2∧
    waits acc s taskId [person] o=true

/-- The page and the server show the same requests open, count the same votes on them, and
wait for the viewer on the same edges. -/
structure Agree : Prop where
  requests : ((openViews list viewer).map (·.request.id)).Perm
    ((approvalOpen s taskId).map (·.id))
  asked : ((openViews list viewer).map (·.asked.length)).sum=
    (approvalSummary acc s taskId viewer.personId).elim 0 (·.asked)
  approved : ((openViews list viewer).map (·.approved)).sum=
    (approvalSummary acc s taskId viewer.personId).elim 0 (·.approved)
  rejected : ((openViews list viewer).map (·.rejected)).sum=
    (approvalSummary acc s taskId viewer.personId).elim 0 (·.rejected)
  waiting : ∀ e∈buildApprovalEdges list viewer, e.waitingOnMe=true↔
    ∃ p, viewer.personId=some p∧edgeWaits acc s taskId e.key p

/-- What `approval.set` sees to: an approval card names two statuses, and people. -/
structure Kept : Prop where
  statuses : ∀ c∈approvalCards s.db taskId, ∃ fromId toId,
    (approvalFields s.db c.id).fromId=some fromId∧(approvalFields s.db c.id).toId=some toId∧
      (s.db.card fromId).isSome∧(s.db.card toId).isSome
  people : ∀ c∈approvalCards s.db taskId, ∀ p∈(approvalFields s.db c.id).approvers, 0<p

/-- The approval cards asked since the task last came to the end of their step. -/
def unsettled : List Card :=
  (approvalCards s.db taskId).filter fun c =>
    after (approvalRoundStart s taskId (approvalFields s.db c.id).toId) (s.createdAt c.id)

/-- Approvals are off in the task's project. -/
def switchedOff : Bool :=
  areaOff s.areas ((cardEnclosingProject s.db taskId).getD 0) "approvals"

/-- The person has a vote in the current round of a request's step. -/
def Voted (c : Card) (p : Int) : Prop :=
  ∃ b∈current s taskId (approvalFields s.db c.id).fromId (approvalFields s.db c.id).toId,
    b.personId=some p

/-- The account has, whoever it stood for. -/
def VotedAs (c : Card) (account : Int) : Prop :=
  ∃ b∈current s taskId (approvalFields s.db c.id).fromId (approvalFields s.db c.id).toId,
    b.actorId=account

instance (c : Card) (p : Int) : Decidable (Voted s taskId c p) :=
  inferInstanceAs (Decidable (∃ b∈current s taskId _ _,_))

instance (c : Card) (account : Int) : Decidable (VotedAs s taskId c account) :=
  inferInstanceAs (Decidable (∃ b∈current s taskId _ _,_))

/-- No request is left unsettled by a task in a terminal status, or where its own card's area
and the project's differ; nobody is asked twice, or asked with neither a vote nor the right
to one; and the viewer's account has voted just when the viewer's person, if it may vote,
has. -/
structure Clear : Prop where
  shown : ∀ c∈unsettled s taskId, switchedOff s taskId=true↔
    terminal s taskId=true∨cardInOffArea s.db s.areas c.id=true
  counted : switchedOff s taskId=false → ∀ c∈unsettled s taskId,
    (approvalFields s.db c.id).approvers.Nodup∧
      ∀ p∈(approvalFields s.db c.id).approvers, Voted s taskId c p∨canVote acc s taskId p=true
  answered : switchedOff s taskId=false → ∀ c∈unsettled s taskId,
    ∀ p∈(approvalFields s.db c.id).approvers, viewer.personId=some p →
      ((∃ u, viewer.userId=some u∧VotedAs s taskId c u)↔
        (canVote acc s taskId p=true → Voted s taskId c p))

section Server

/-- A row of `approval_open`. -/
def openRequest (c : Card) : OpenRequest :=
  ⟨c.id,(approvalFields s.db c.id).fromId,(approvalFields s.db c.id).toId,
    (approvalFields s.db c.id).approvers,s.createdAt c.id⟩

variable {acc s taskId} {fromId toId : Option Int} {approvers : List Int} {p : Int} {c : Card}

theorem approvalOpen_eq : approvalOpen s taskId=
    ((unsettled s taskId).filter fun c => !terminal s taskId&&!cardInOffArea s.db s.areas c.id).map
      (openRequest s) := by
  unfold approvalOpen unsettled
  cases terminal s taskId with
  | true => simp
  | false =>
    simp only [List.filter_filter,Bool.not_false,Bool.true_and]
    rfl

theorem approvalOpen_eq_nil_iff : approvalOpen s taskId=[]↔
    ∀ c∈unsettled s taskId, terminal s taskId=true∨cardInOffArea s.db s.areas c.id=true := by
  rw [approvalOpen_eq,List.map_eq_nil_iff,List.filter_eq_nil_iff]
  apply forall₂_congr
  intro c hc
  cases terminal s taskId <;> simp

/-- Every unsettled card is open. -/
theorem length_approvalOpen_iff : (approvalOpen s taskId).length=(unsettled s taskId).length↔
    ∀ c∈unsettled s taskId, ¬(terminal s taskId=true∨cardInOffArea s.db s.areas c.id=true) := by
  rw [approvalOpen_eq,List.length_map,List.length_filter_eq_length_iff]
  apply forall₂_congr
  intro c hc
  cases terminal s taskId <;> simp

theorem approvalOpen_unsettled (h : ∀ c∈unsettled s taskId,
    ¬(terminal s taskId=true∨cardInOffArea s.db s.areas c.id=true)) :
    approvalOpen s taskId=(unsettled s taskId).map (openRequest s) := by
  rw [approvalOpen_eq,List.filter_eq_self.mpr]
  intro c hc
  simpa using h c hc

theorem summary_counts (acc : Access) (s : Tables) (taskId : Int) (me : Option Int) :
    let tallies := (approvalOpen s taskId).map fun o =>
      approvalTally acc s taskId o.fromId o.toId o.approvers
    (approvalSummary acc s taskId me).elim 0 (·.asked)=(tallies.map (·.asked)).sum∧
    (approvalSummary acc s taskId me).elim 0 (·.approved)=(tallies.map (·.approved)).sum∧
    (approvalSummary acc s taskId me).elim 0 (·.rejected)=(tallies.map (·.rejected)).sum := by
  by_cases h : approvalOpen s taskId=[]
  · simp [approvalSummary,h]
  · simp [approvalSummary,h]

theorem latestOf_isSome_iff : (latestOf s taskId fromId toId p).isSome=true↔
    ∃ b∈current s taskId fromId toId, b.personId=some p := by
  simp [latestOf]

theorem latestOf_eq_find? : latestOf s taskId fromId toId p=
    (current s taskId fromId toId).reverse.find? (·.personId=some p) := by
  rw [latestOf,List.getLast?_eq_head?_reverse,← List.filter_reverse,List.head?_filter]

theorem tallied_le : (tallied acc s taskId fromId toId approvers).length ≤ approvers.dedup.length := by
  have hrows : (approvers.dedup.map fun p => (p,latestOf s taskId fromId toId p)).length=
      approvers.dedup.length := List.length_map _
  rw [← hrows]
  exact List.length_filter_le _ _

theorem asked_le : (approvalTally acc s taskId fromId toId approvers).asked ≤ approvers.length :=
  tallied_le.trans (List.dedup_sublist approvers).length_le

/-- Everyone is counted when nobody is asked twice, or with neither a vote nor a right to one. -/
theorem asked_eq_iff : (approvalTally acc s taskId fromId toId approvers).asked=approvers.length↔
    approvers.Nodup∧∀ p∈approvers,
      (∃ b∈current s taskId fromId toId, b.personId=some p)∨canVote acc s taskId p=true := by
  have hrows : (approvers.dedup.map fun p => (p,latestOf s taskId fromId toId p)).length=
      approvers.dedup.length := List.length_map _
  have hall : (tallied acc s taskId fromId toId approvers).length=approvers.dedup.length↔
      ∀ p∈approvers, (∃ b∈current s taskId fromId toId, b.personId=some p)∨
        canVote acc s taskId p=true := by
    rw [tallied,← hrows,List.length_filter_eq_length_iff]
    simp [latestOf_isSome_iff]
  constructor
  · intro h
    have hle : approvers.length ≤ approvers.dedup.length := h ▸ tallied_le
    have hsame := (List.dedup_sublist approvers).eq_of_length_le hle
    refine ⟨hsame ▸ List.nodup_dedup approvers,hall.mp ?_⟩
    rw [hsame]
    exact h
  · intro h
    have hlen := hall.mpr h.2
    rwa [List.Nodup.dedup h.1] at hlen

/-- With nobody asked twice, the votes of everyone asked are counted. -/
theorem counted_eq (h : approvers.Nodup) (d : Decision) :
    (tallied acc s taskId fromId toId approvers).countP (fun k => k.2.any (·.decision=d))=
      approvers.countP fun p => (latestOf s taskId fromId toId p).any (·.decision=d) := by
  rw [tallied,List.Nodup.dedup h,List.countP_filter,List.countP_map]
  apply List.countP_congr
  intro p _
  cases hp : latestOf s taskId fromId toId p <;> simp [hp]

theorem waits_iff {o : OpenRequest} : waits acc s taskId [p] o=true↔
    p∈o.approvers∧0 ≤ p∧canVote acc s taskId p=true∧
      ¬∃ b∈current s taskId o.fromId o.toId, b.personId=some p := by
  simp only [waits,List.any_eq_true,decide_eq_true_eq,List.mem_singleton]
  constructor
  · intro h
    obtain ⟨e,he,hpos,rfl,hvote,hnone⟩ := h
    exact ⟨he,hpos,hvote,by simpa using hnone⟩
  · intro h
    obtain ⟨he,hpos,hvote,hnone⟩ := h
    exact ⟨p,he,hpos,rfl,hvote,by simpa using hnone⟩

theorem edgeWaits_iff {k : Int×Int}
    (hopen : approvalOpen s taskId=(unsettled s taskId).map (openRequest s)) :
    edgeWaits acc s taskId k p↔∃ c∈unsettled s taskId,
      (approvalFields s.db c.id).fromId=some k.1∧(approvalFields s.db c.id).toId=some k.2∧
        p∈(approvalFields s.db c.id).approvers∧0 ≤ p∧canVote acc s taskId p=true∧
          ¬Voted s taskId c p := by
  simp only [edgeWaits,hopen,List.mem_map,exists_exists_and_eq_and,waits_iff]
  rfl

end Server

section Page

/-- A request with the votes on its edge. -/
def viewOf (r : ListedRequest) : RequestView :=
  requestView (bucket voteKey list.decisions (requestKey r)) r

variable {acc s taskId list viewer} {userLabel : Int → String} {actor fromId toId p : Int} {c : Card}

theorem mem_edgeKeys {r : ListedRequest} (h : r∈list.requests) : requestKey r∈edgeKeys list :=
  mem_firstKeys.mpr (List.mem_append_left _ (List.mem_map_of_mem h))

theorem mem_edges {e : EdgeView} : e∈buildApprovalEdges list viewer↔
    ∃ k∈edgeKeys list, edgeView list viewer k=e := by
  rw [buildApprovalEdges,(List.perm_insertionSort _ _).mem_iff,List.mem_map]

/-- An edge holds the requests of its key. -/
theorem edge_requests_perm (list : ListOutput) (viewer : Viewer) (k : Int×Int) : (edgeView list viewer k).requests.Perm
    ((bucket requestKey list.requests k).map (viewOf list)) := by
  have hviews : (bucket requestKey list.requests k).map
      (requestView (bucket voteKey list.decisions k))=
      (bucket requestKey list.requests k).map (viewOf list) := by
    apply List.map_congr_left
    intro r hr
    have hk : requestKey r=k := by simpa using (List.mem_filter.mp hr).2
    rw [viewOf,hk]
  rw [← hviews]
  exact List.perm_insertionSort _ _

/-- The edges together hold every request once. -/
theorem openViews_perm : (openViews list viewer).Perm
    ((list.requests.map (viewOf list)).filter (·.opened)) := by
  have hedges : (openViews list viewer).Perm
      ((edgeKeys list).flatMap fun k => (edgeView list viewer k).requests.filter (·.opened)) := by
    have hsort := (List.perm_insertionSort (edgeBefore · ·)
      ((edgeKeys list).map (edgeView list viewer))).flatMap_right
        fun e => e.requests.filter (·.opened)
    rwa [List.flatMap_map] at hsort
  have hrequests : ((edgeKeys list).flatMap fun k =>
      (edgeView list viewer k).requests.filter (·.opened)).Perm ((edgeKeys list).flatMap fun k =>
        ((bucket requestKey list.requests k).map (viewOf list)).filter (·.opened)) :=
    .flatMap_left _ fun k _ => (edge_requests_perm list viewer k).filter _
  have hsplit : (((edgeKeys list).flatMap (bucket requestKey list.requests)).map
      (viewOf list)).filter (·.opened)=(edgeKeys list).flatMap fun k =>
        ((bucket requestKey list.requests k).map (viewOf list)).filter (·.opened) := by
    rw [List.map_flatMap,List.filter_flatMap]
  have hall := perm_flatMap_bucket (nodup_firstKeys _) fun (r : ListedRequest) (hr : r∈list.requests) => mem_edgeKeys hr
  have hkeys := (hall.map (viewOf list)).filter (·.opened)
  exact hedges.trans (hrequests.trans (hsplit ▸ hkeys))

theorem list_rows (h : approvalList s userLabel actor (some taskId)=.ok list) :
    (switchedOff s taskId=true → list.requests=[]∧list.decisions=[])∧
    (switchedOff s taskId=false →
      list.requests.Perm ((approvalCards s.db taskId).map (listedRequest s userLabel taskId))∧
      list.decisions=(ballots s taskId).reverse.map (listedVote s userLabel taskId)) := by
  unfold approvalList at h
  simp only [Option.getD_some] at h
  split_ifs at h
  cases hp : cardEnclosingProject s.db taskId with
  | none => simp [hp] at h
  | some project =>
    simp only [hp] at h
    have hswitch : switchedOff s taskId=areaOff s.areas project "approvals" := by
      simp [switchedOff,hp]
    split_ifs at h with _ hoff
    · have hlist := Except.ok.inj h
      subst hlist
      exact ⟨fun _ => ⟨rfl,rfl⟩,fun hon => by simp [hswitch,hoff] at hon⟩
    · have hlist := Except.ok.inj h
      subst hlist
      exact ⟨fun hon => absurd (hswitch ▸ hon) hoff,
        fun _ => ⟨(List.perm_insertionSort _ _).map _,rfl⟩⟩

/-- Switched off, the page has no edges. -/
theorem edges_off (h : approvalList s userLabel actor (some taskId)=.ok list)
    (hoff : switchedOff s taskId=true) : buildApprovalEdges list viewer=[] := by
  obtain ⟨hrequests,hdecisions⟩ := (list_rows h).1 hoff
  have hkeys : edgeKeys list=[] := by
    simp [edgeKeys,hrequests,hdecisions,firstKeys]
  simp [buildApprovalEdges,hkeys]

/-- The page's current votes on an edge are the server's, the newest first. -/
theorem edge_current (hvotes : list.decisions=
      (ballots s taskId).reverse.map (listedVote s userLabel taskId)) :
    (bucket voteKey list.decisions (fromId,toId)).filter (!·.settled)=
      (current s taskId (some fromId) (some toId)).reverse.map (listedVote s userLabel taskId) := by
  rw [hvotes,bucket,List.filter_map,List.filter_map,List.filter_filter,current,
    ← List.filter_reverse]
  congr 1
  apply List.filter_congr
  intro b _
  have hkey : voteKey (listedVote s userLabel taskId b)=(b.fromId,b.toId) := rfl
  have hsettled : (listedVote s userLabel taskId b).settled=
      !after (approvalRoundStart s taskId (some b.toId)) b.createdAt := rfl
  simp only [Function.comp_apply,hkey,hsettled,Bool.not_not,Prod.mk.injEq,Option.some.injEq]
  rw [Bool.eq_iff_iff]
  simp only [Bool.and_eq_true,decide_eq_true_eq]
  constructor
  · intro hb
    obtain ⟨hafter,hfrom,hto⟩ := hb
    exact ⟨hfrom.symm,hto.symm,hto ▸ hafter⟩
  · intro hb
    obtain ⟨hfrom,hto,hafter⟩ := hb
    exact ⟨hto ▸ hafter,hfrom.symm,hto.symm⟩

/-- A person's vote, as the page finds it, is the one the tally counts. -/
theorem answer_eq (hp : p≠0) (l : List Ballot) :
    (latestPerVoter (l.map (listedVote s userLabel taskId))).find? (·.personId.getD 0=p)=
      (l.find? (·.personId=some p)).map (listedVote s userLabel taskId) := by
  have hvoter : (fun v : ListedVote => decide (v.personId.getD 0=p))=
      fun v => decide (voter v=.person p) := by
    funext v
    unfold voter
    split_ifs with hv
    · simp
    · have hne : v.personId.getD 0≠p := fun h => hp (h ▸ not_not.mp hv)
      simp [hne]
  rw [hvoter,latestPerVoter,find?_firstPer List.not_mem_nil,← hvoter,List.find?_map]
  congr 2
  funext b
  have hperson : (listedVote s userLabel taskId b).personId=b.personId := rfl
  simp only [Function.comp_apply,hperson]
  cases b.personId with
  | none => simp [Ne.symm hp]
  | some q => simp

/-- The page's view of an approval card. -/
def cardView (s : Tables) (userLabel : Int → String) (taskId : Int) (list : ListOutput)
    (c : Card) : RequestView :=
  viewOf list (listedRequest s userLabel taskId c)

theorem request_key (userLabel : Int → String) (h : Kept s taskId) (hc : c∈approvalCards s.db taskId) :
    (approvalFields s.db c.id).fromId=some (requestKey (listedRequest s userLabel taskId c)).1∧
      (approvalFields s.db c.id).toId=some (requestKey (listedRequest s userLabel taskId c)).2 := by
  obtain ⟨f,t,hf,ht,hfrom,hto⟩ := h.statuses c hc
  have href : ∀ id, (s.db.card id).isSome → (refOf ((some id).bind (statusRef s.db))).id=id := by
    intro id hid
    obtain ⟨x,hx⟩ := Option.isSome_iff_exists.mp hid
    simp [refOf,statusRef,hx]
  simp only [requestKey,listedRequest,hf,ht,href f hfrom,href t hto,and_self]

theorem cardView_opened (userLabel : Int → String) (list : ListOutput) : (cardView s userLabel taskId list c).opened=
    after (approvalRoundStart s taskId (approvalFields s.db c.id).toId) (s.createdAt c.id) := by
  have hopened : (cardView s userLabel taskId list c).opened=
      ((approvalRoundStart s taskId (approvalFields s.db c.id).toId).filter
        (s.createdAt c.id ≤ ·)).isNone := rfl
  rw [hopened,after]
  cases approvalRoundStart s taskId (approvalFields s.db c.id).toId with
  | none => rfl
  | some t =>
    by_cases ht : s.createdAt c.id ≤ t
    · simp [Option.filter,ht]
    · simp [Option.filter,ht,not_le.mp ht]

theorem openViews_unsettled (viewer : Viewer) (h : approvalList s userLabel actor (some taskId)=.ok list)
    (hon : switchedOff s taskId=false) : (openViews list viewer).Perm
      ((unsettled s taskId).map (cardView s userLabel taskId list)) := by
  have hviews := ((((list_rows h).2 hon).1.map (viewOf list)).filter (·.opened))
  have hopened : (((approvalCards s.db taskId).map (listedRequest s userLabel taskId)).map
      (viewOf list)).filter (·.opened)=
      (unsettled s taskId).map (cardView s userLabel taskId list) := by
    rw [List.map_map,List.filter_map,unsettled]
    congr 1
    apply List.filter_congr
    intro c _
    exact cardView_opened userLabel list
  exact openViews_perm.trans (hopened ▸ hviews)

/-- The people an open request asks, each with their answer. -/
theorem cardView_asked (hkept : Kept s taskId)
    (hvotes : list.decisions=(ballots s taskId).reverse.map (listedVote s userLabel taskId))
    (hc : c∈unsettled s taskId) : (cardView s userLabel taskId list c).asked=
      (approvalFields s.db c.id).approvers.map fun p => ⟨p,cardLabel s.db p,
        (latestOf s taskId (approvalFields s.db c.id).fromId (approvalFields s.db c.id).toId p).map
          (listedVote s userLabel taskId)⟩ := by
  obtain ⟨hmem,hopen⟩ := List.mem_filter.mp hc
  obtain ⟨hfrom,hto⟩ := request_key userLabel hkept hmem
  have hreached : (listedRequest s userLabel taskId c).reachedAt=none := by
    rw [← cardView_opened userLabel list] at hopen
    exact Option.isNone_iff_eq_none.mp hopen
  have happrovers : (listedRequest s userLabel taskId c).approvers=
      (approvalFields s.db c.id).approvers.map fun p => (p,cardLabel s.db p) := rfl
  simp only [cardView,viewOf,requestView,hreached,happrovers,List.map_map]
  apply List.map_congr_left
  intro p hp
  have hne : p≠0 := (hkept.people c hmem p hp).ne'
  simp only [Function.comp_apply,AskedView.mk.injEq,true_and]
  rw [edge_current hvotes,answer_eq hne,hfrom,hto,latestOf_eq_find?]

/-- On an open request the page counts the votes of everyone asked. -/
theorem cardView_count (hkept : Kept s taskId)
    (hvotes : list.decisions=(ballots s taskId).reverse.map (listedVote s userLabel taskId))
    (hc : c∈unsettled s taskId) (d : Decision) :
    (cardView s userLabel taskId list c).asked.countP (fun a => a.vote.any (·.decision=d))=
      (approvalFields s.db c.id).approvers.countP fun p =>
        (latestOf s taskId (approvalFields s.db c.id).fromId (approvalFields s.db c.id).toId p).any
          (·.decision=d) := by
  rw [cardView_asked hkept hvotes hc,List.countP_map]
  apply List.countP_congr
  intro p _
  simp only [Function.comp_apply,Option.any_map]
  rfl

theorem mem_requests (h : approvalList s userLabel actor (some taskId)=.ok list)
    (hon : switchedOff s taskId=false) {r : ListedRequest} : r∈list.requests↔
      ∃ c∈approvalCards s.db taskId, listedRequest s userLabel taskId c=r := by
  rw [((list_rows h).2 hon).1.mem_iff,List.mem_map]

/-- The viewer has no vote of their own on an edge. -/
theorem mine_isNone_iff (viewer : Viewer) (k : Int×Int) (hvotes : list.decisions=
      (ballots s taskId).reverse.map (listedVote s userLabel taskId)) :
    (edgeView list viewer k).mine.isNone=true↔¬∃ u, viewer.userId=some u∧
      ∃ b∈current s taskId (some k.1) (some k.2), b.actorId=u := by
  have hmine : (edgeView list viewer k).mine=viewer.userId.bind fun u =>
      ((bucket voteKey list.decisions (k.1,k.2)).filter (!·.settled)).find? (·.byId=u) := rfl
  rw [hmine,edge_current hvotes]
  cases viewer.userId with
  | none => simp
  | some u =>
    simp only [Option.bind_some,Option.isNone_iff_eq_none,List.find?_eq_none,List.mem_map,
      List.mem_reverse,forall_exists_index,and_imp,forall_apply_eq_imp_iff₂,decide_eq_true_eq,
      Option.some.injEq,exists_eq_left',not_exists,not_and]
    rfl

/-- An edge has an open request that asks the person. -/
theorem edge_asks_iff {k : Int×Int} (hkept : Kept s taskId)
    (h : approvalList s userLabel actor (some taskId)=.ok list)
    (hon : switchedOff s taskId=false) :
    (∃ r∈(edgeView list viewer k).requests, r.opened=true∧∃ q∈r.request.approvers, q.1=p)↔
      ∃ c∈unsettled s taskId, (approvalFields s.db c.id).fromId=some k.1∧
        (approvalFields s.db c.id).toId=some k.2∧p∈(approvalFields s.db c.id).approvers := by
  constructor
  · intro hr
    obtain ⟨r,hr,hopened,q,hq,hqp⟩ := hr
    obtain ⟨r₀,hr₀,rfl⟩ := List.mem_map.mp ((edge_requests_perm list viewer k).mem_iff.mp hr)
    obtain ⟨hmem,hk⟩ := List.mem_filter.mp hr₀
    obtain ⟨c,hc,rfl⟩ := (mem_requests h hon).mp hmem
    have hk : requestKey (listedRequest s userLabel taskId c)=k := by simpa using hk
    obtain ⟨hfrom,hto⟩ := request_key userLabel hkept hc
    rw [hk] at hfrom hto
    obtain ⟨p₀,hp₀,rfl⟩ := List.mem_map.mp hq
    refine ⟨c,List.mem_filter.mpr ⟨hc,?_⟩,hfrom,hto,hqp ▸ hp₀⟩
    rw [← cardView_opened userLabel list]
    exact hopened
  · intro hc
    obtain ⟨c,hc,hfrom,hto,hp⟩ := hc
    obtain ⟨hmem,hopen⟩ := List.mem_filter.mp hc
    have hkey := request_key userLabel hkept hmem
    have hk : requestKey (listedRequest s userLabel taskId c)=k :=
      Prod.ext (Option.some.inj (hkey.1.symm.trans hfrom)) (Option.some.inj (hkey.2.symm.trans hto))
    have hr : listedRequest s userLabel taskId c∈bucket requestKey list.requests k :=
      List.mem_filter.mpr ⟨(mem_requests h hon).mpr ⟨c,hmem,rfl⟩,by simpa using hk⟩
    have hview := (edge_requests_perm list viewer k).mem_iff.mpr
      (List.mem_map_of_mem hr)
    exact ⟨_,hview,(cardView_opened userLabel list).trans hopen,_,List.mem_map_of_mem hp,rfl⟩

theorem waitingOnMe_iff {k : Int×Int} (hkept : Kept s taskId)
    (h : approvalList s userLabel actor (some taskId)=.ok list)
    (hon : switchedOff s taskId=false) : (edgeView list viewer k).waitingOnMe=true↔
      ∃ p, viewer.personId=some p∧∃ c∈unsettled s taskId,
        (approvalFields s.db c.id).fromId=some k.1∧(approvalFields s.db c.id).toId=some k.2∧
          p∈(approvalFields s.db c.id).approvers∧
            ¬∃ u, viewer.userId=some u∧VotedAs s taskId c u := by
  have hwait : (edgeView list viewer k).waitingOnMe=viewer.personId.any fun p =>
      (edgeView list viewer k).mine.isNone&&(edgeView list viewer k).requests.any fun r =>
        r.opened&&r.request.approvers.any (·.1=p) := rfl
  have hmine := mine_isNone_iff viewer k ((list_rows h).2 hon).2
  simp only [hwait,Option.any_eq_true,Bool.and_eq_true,List.any_eq_true,decide_eq_true_eq,
    edge_asks_iff hkept h hon,hmine]
  apply exists_congr
  intro p
  apply and_congr_right
  intro _
  constructor
  · intro hc
    obtain ⟨hnone,c,hc,hfrom,hto,hp⟩ := hc
    refine ⟨c,hc,hfrom,hto,hp,?_⟩
    simpa only [VotedAs,hfrom,hto] using hnone
  · intro hc
    obtain ⟨c,hc,hfrom,hto,hp,hnone⟩ := hc
    refine ⟨?_,c,hc,hfrom,hto,hp⟩
    simpa only [VotedAs,hfrom,hto] using hnone

theorem eq_of_sum_eq {α : Type} {l : List α} {f g : α → Nat} (h : ∀ x∈l, f x ≤ g x)
    (hsum : (l.map f).sum=(l.map g).sum) : ∀ x∈l, f x=g x := by
  intro x hx
  by_contra hne
  have hlt := List.sum_lt_sum f g h ⟨x,hx,lt_of_le_of_ne (h x hx) hne⟩
  omega

/-- A count over the requests the page shows open. -/
theorem openViews_sum (h : approvalList s userLabel actor (some taskId)=.ok list)
    (hon : switchedOff s taskId=false) (count : RequestView → Nat) :
    ((openViews list viewer).map count).sum=
      ((unsettled s taskId).map fun c => count (cardView s userLabel taskId list c)).sum := by
  have hsum := ((openViews_unsettled viewer h hon).map count).sum_eq
  rwa [List.map_map] at hsum

/-- A count over the requests of `approval_open`, when every unsettled card is one. -/
theorem open_sum (hopen : approvalOpen s taskId=(unsettled s taskId).map (openRequest s))
    (count : Tally → Nat) : (((approvalOpen s taskId).map fun o =>
        approvalTally acc s taskId o.fromId o.toId o.approvers).map count).sum=
      ((unsettled s taskId).map fun c => count (approvalTally acc s taskId
        (approvalFields s.db c.id).fromId (approvalFields s.db c.id).toId
        (approvalFields s.db c.id).approvers)).sum := by
  rw [hopen,List.map_map,List.map_map]
  rfl

theorem asked_agrees_iff (hkept : Kept s taskId)
    (h : approvalList s userLabel actor (some taskId)=.ok list)
    (hon : switchedOff s taskId=false)
    (hopen : approvalOpen s taskId=(unsettled s taskId).map (openRequest s)) :
    ((openViews list viewer).map (·.asked.length)).sum=
        (approvalSummary acc s taskId viewer.personId).elim 0 (·.asked)↔
      ∀ c∈unsettled s taskId, (approvalFields s.db c.id).approvers.Nodup∧
        ∀ p∈(approvalFields s.db c.id).approvers,
          Voted s taskId c p∨canVote acc s taskId p=true := by
  have hasked : ∀ c∈unsettled s taskId, (cardView s userLabel taskId list c).asked.length=
      (approvalFields s.db c.id).approvers.length := by
    intro c hc
    rw [cardView_asked hkept ((list_rows h).2 hon).2 hc,List.length_map]
  rw [(summary_counts acc s taskId viewer.personId).1,openViews_sum h hon,open_sum hopen,
    List.map_congr_left hasked]
  constructor
  · intro hsum c hc
    have hall := eq_of_sum_eq (fun c _ => asked_le) hsum.symm c hc
    exact asked_eq_iff.mp hall
  · intro hall
    congr 1
    apply List.map_congr_left
    intro c hc
    exact (asked_eq_iff.mpr (hall c hc)).symm

/-- A count of one decision. -/
theorem count_agrees (hkept : Kept s taskId)
    (h : approvalList s userLabel actor (some taskId)=.ok list)
    (hon : switchedOff s taskId=false)
    (hnodup : ∀ c∈unsettled s taskId, (approvalFields s.db c.id).approvers.Nodup)
    {d : Decision} {count : RequestView → Nat} (hcount : ∀ history r,
      count (requestView history r)=
        (requestView history r).asked.countP fun a => a.vote.any (·.decision=d)) :
    ((openViews list viewer).map count).sum=
      ((unsettled s taskId).map fun c => (tallied acc s taskId (approvalFields s.db c.id).fromId
        (approvalFields s.db c.id).toId (approvalFields s.db c.id).approvers).countP
          fun k => k.2.any (·.decision=d)).sum := by
  rw [openViews_sum h hon]
  congr 1
  apply List.map_congr_left
  intro c hc
  rw [counted_eq (hnodup c hc),← cardView_count hkept ((list_rows h).2 hon).2 hc]
  exact hcount _ _

/-- Switched off, the page shows nothing, and agrees when the server has nothing open. -/
theorem agree_off (h : approvalList s userLabel actor (some taskId)=.ok list)
    (hoff : switchedOff s taskId=true) :
    Agree acc s taskId list viewer↔approvalOpen s taskId=[] := by
  have hedges : buildApprovalEdges list viewer=[] := edges_off h hoff
  have hviews : openViews list viewer=[] := by simp [openViews,hedges]
  constructor
  · intro ha
    have hperm := ha.requests
    rw [hviews,List.map_nil,List.nil_perm,List.map_eq_nil_iff] at hperm
    exact hperm
  · intro hnil
    refine ⟨?_,?_,?_,?_,?_⟩
    · simp [hviews,hnil]
    · simp [hviews,approvalSummary,hnil]
    · simp [hviews,approvalSummary,hnil]
    · simp [hviews,approvalSummary,hnil]
    · simp [hedges]

theorem requests_agree_iff (h : approvalList s userLabel actor (some taskId)=.ok list)
    (hon : switchedOff s taskId=false) :
    ((openViews list viewer).map (·.request.id)).Perm ((approvalOpen s taskId).map (·.id))↔
      ∀ c∈unsettled s taskId, ¬(terminal s taskId=true∨cardInOffArea s.db s.areas c.id=true) := by
  have hviews := openViews_unsettled viewer h hon
  constructor
  · intro hperm
    have hlen := hperm.length_eq
    rw [List.length_map,List.length_map,hviews.length_eq,List.length_map] at hlen
    exact length_approvalOpen_iff.mp hlen.symm
  · intro hall
    have hids := hviews.map (·.request.id)
    rw [List.map_map] at hids
    rw [approvalOpen_unsettled hall,List.map_map]
    exact hids

/-- Every open request on an edge that asks the viewer reads the same votes. -/
theorem page_waits_iff {k : Int×Int} (hkept : Kept s taskId)
    (h : approvalList s userLabel actor (some taskId)=.ok list)
    (hon : switchedOff s taskId=false) (hc : c∈unsettled s taskId)
    (hfrom : (approvalFields s.db c.id).fromId=some k.1)
    (hto : (approvalFields s.db c.id).toId=some k.2)
    (hp : p∈(approvalFields s.db c.id).approvers) (hme : viewer.personId=some p) :
    (edgeView list viewer k).waitingOnMe=true↔
      ¬∃ u, viewer.userId=some u∧VotedAs s taskId c u := by
  rw [waitingOnMe_iff hkept h hon]
  constructor
  · intro hwait
    obtain ⟨q,-,e,-,hefrom,heto,-,hnone⟩ := hwait
    simpa only [VotedAs,hfrom,hto,hefrom,heto] using hnone
  · intro hnone
    exact ⟨p,hme,c,hc,hfrom,hto,hp,hnone⟩

theorem edge_waits_iff (acc : Access) {k : Int×Int} (hkept : Kept s taskId)
    (hopen : approvalOpen s taskId=(unsettled s taskId).map (openRequest s))
    (hc : c∈unsettled s taskId) (hfrom : (approvalFields s.db c.id).fromId=some k.1)
    (hto : (approvalFields s.db c.id).toId=some k.2)
    (hp : p∈(approvalFields s.db c.id).approvers) :
    edgeWaits acc s taskId k p↔canVote acc s taskId p=true∧¬Voted s taskId c p := by
  rw [edgeWaits_iff hopen]
  constructor
  · intro hwait
    obtain ⟨e,-,hefrom,heto,-,-,hvote,hnone⟩ := hwait
    refine ⟨hvote,?_⟩
    simpa only [Voted,hfrom,hto,hefrom,heto] using hnone
  · intro hwait
    have hpos := hkept.people c (List.mem_filter.mp hc).1 p hp
    exact ⟨c,hc,hfrom,hto,hp,hpos.le,hwait.1,hwait.2⟩

/-- The requests shown are those open, so a viewer is waited for alike when their account has
voted just as their person has, or may not. -/
theorem waiting_agrees_iff (hkept : Kept s taskId)
    (h : approvalList s userLabel actor (some taskId)=.ok list)
    (hon : switchedOff s taskId=false)
    (hopen : approvalOpen s taskId=(unsettled s taskId).map (openRequest s)) :
    (∀ e∈buildApprovalEdges list viewer, e.waitingOnMe=true↔
        ∃ p, viewer.personId=some p∧edgeWaits acc s taskId e.key p)↔
      ∀ c∈unsettled s taskId, ∀ p∈(approvalFields s.db c.id).approvers, viewer.personId=some p →
        ((∃ u, viewer.userId=some u∧VotedAs s taskId c u)↔
          (canVote acc s taskId p=true → Voted s taskId c p)) := by
  constructor
  · intro hall c hc p hp hme
    have hmem := (List.mem_filter.mp hc).1
    obtain ⟨hfrom,hto⟩ := request_key userLabel hkept hmem
    have hedge := mem_edgeKeys ((mem_requests h hon).mpr ⟨c,hmem,rfl⟩)
    have hsame := hall _ (mem_edges.mpr ⟨_,hedge,rfl⟩)
    have hpage := page_waits_iff hkept h hon hc hfrom hto hp hme
    have hserver := edge_waits_iff acc hkept hopen hc hfrom hto hp
    have hkey : (edgeView list viewer (requestKey (listedRequest s userLabel taskId c))).key=
        requestKey (listedRequest s userLabel taskId c) := rfl
    simp only [hpage,hkey,hme,Option.some.injEq,exists_eq_left',hserver] at hsame
    rw [← not_iff_not,hsame,Classical.not_imp]
  · intro hall e he
    obtain ⟨k,-,rfl⟩ := mem_edges.mp he
    have hkey : (edgeView list viewer k).key=k := rfl
    rw [waitingOnMe_iff hkept h hon,hkey]
    apply exists_congr
    intro p
    apply and_congr_right
    intro hme
    rw [edgeWaits_iff hopen]
    apply exists_congr
    intro c
    apply and_congr_right
    intro hc
    apply and_congr_right
    intro _
    apply and_congr_right
    intro _
    apply and_congr_right
    intro hp
    have hpos := hkept.people c (List.mem_filter.mp hc).1 p hp
    rw [hall c hc p hp hme,Classical.not_imp]
    exact (and_iff_right hpos.le).symm

theorem clear_of_agree (hkept : Kept s taskId)
    (h : approvalList s userLabel actor (some taskId)=.ok list)
    (ha : Agree acc s taskId list viewer) : Clear acc s taskId viewer := by
  cases hoff : switchedOff s taskId with
  | true =>
    have hclosed := approvalOpen_eq_nil_iff.mp ((agree_off h hoff).mp ha)
    refine ⟨fun c hc => ?_,fun hon => ?_,fun hon => ?_⟩
    · simp [hoff,hclosed c hc]
    · simp [hoff] at hon
    · simp [hoff] at hon
  | false =>
    have hshown := (requests_agree_iff h hoff).mp ha.requests
    have hopen := approvalOpen_unsettled hshown
    refine ⟨fun c hc => ?_,fun _ => ?_,fun _ => ?_⟩
    · simp [hoff,hshown c hc]
    · exact (asked_agrees_iff hkept h hoff hopen).mp ha.asked
    · exact (waiting_agrees_iff hkept h hoff hopen).mp ha.waiting

theorem agree_of_clear (hkept : Kept s taskId)
    (h : approvalList s userLabel actor (some taskId)=.ok list)
    (hclear : Clear acc s taskId viewer) : Agree acc s taskId list viewer := by
  cases hoff : switchedOff s taskId with
  | true =>
    rw [agree_off h hoff,approvalOpen_eq_nil_iff]
    intro c hc
    exact (hclear.shown c hc).mp hoff
  | false =>
    have hshown : ∀ c∈unsettled s taskId,
        ¬(terminal s taskId=true∨cardInOffArea s.db s.areas c.id=true) := by
      intro c hc
      rw [← hclear.shown c hc]
      simp [hoff]
    have hopen := approvalOpen_unsettled hshown
    have hnodup : ∀ c∈unsettled s taskId, (approvalFields s.db c.id).approvers.Nodup :=
      fun c hc => (hclear.counted hoff c hc).1
    have hcounts := summary_counts acc s taskId viewer.personId
    refine ⟨?_,?_,?_,?_,?_⟩
    · exact (requests_agree_iff h hoff).mpr hshown
    · exact (asked_agrees_iff hkept h hoff hopen).mpr (hclear.counted hoff)
    · rw [hcounts.2.1,open_sum hopen]
      exact count_agrees hkept h hoff hnodup fun _ _ => rfl
    · rw [hcounts.2.2,open_sum hopen]
      exact count_agrees hkept h hoff hnodup fun _ _ => rfl
    · exact (waiting_agrees_iff hkept h hoff hopen).mpr (hclear.answered hoff)

/-- The page agrees with the server on a task exactly when its requests are clear. -/
theorem views_agree (hkept : Kept s taskId)
    (h : approvalList s userLabel actor (some taskId)=.ok list) :
    Agree acc s taskId list viewer↔Clear acc s taskId viewer :=
  ⟨clear_of_agree hkept h,agree_of_clear hkept h⟩

end Page

/-- A task with one request, made at 100 to go from review 3 to done 4. Person 6 has a login,
person 9 has none. -/
def desk (status : Int) (asked : List Int) (log : List Record) : Tables where
  db := {
    cardTypes := [⟨1,"project",none,false⟩,⟨2,"task",some 1,true⟩,⟨3,"status",some 1,false⟩,
      ⟨4,"approval",some 2,false⟩,⟨5,"person",none,false⟩]
    attributeDefs := [⟨11,"status",.cardRef,some 3,none⟩,⟨12,"approval_from",.cardRef,some 3,none⟩,
      ⟨13,"approval_to",.cardRef,some 3,none⟩,⟨15,"approvers",.cardRefs,some 5,none⟩]
    cards := [⟨1,1,none,none,false,.triage⟩,⟨2,2,some 1,none,false,.triage⟩,
      ⟨3,3,some 1,none,false,.active⟩,⟨4,3,some 1,none,false,.terminal⟩,
      ⟨5,3,some 1,none,false,.terminal⟩,⟨6,5,none,none,false,.triage⟩,
      ⟨7,5,none,none,false,.triage⟩,⟨8,4,some 2,none,false,.triage⟩,⟨9,5,none,none,false,.triage⟩]
    values := [⟨2,11,.ofInt status⟩,⟨8,12,.ofInt 3⟩,⟨8,13,.ofInt 4⟩,⟨8,15,.arr (asked.map .ofInt)⟩] }
  dir := ⟨[⟨20,none,false⟩],[⟨20,1,none⟩],[],[⟨20,6⟩]⟩
  areas := ⟨[],[],[]⟩
  createdAt _ := 100
  log := log
  nextRecordId := 2

/-- Account 20 voted while it was linked to person 7. -/
def votedBefore : List Record := [⟨1,2,.approvalDecision ⟨.approve,3,4,"",some 3,some 7,none⟩,20,200⟩]

theorem desk_listed (status : Int) (asked : List Int) (log : List Record) :
    ∃ list, approvalList (desk status asked log) (fun _ => "") 20 (some 2)=.ok list := ⟨_,rfl⟩

theorem desk_requests (status : Int) (asked : List Int) (log : List Record) :
    approvalCards (desk status asked log).db 2=[⟨8,4,some 2,none,false,.triage⟩] := rfl

theorem desk_kept {status : Int} {asked : List Int} {log : List Record}
    (h : ∀ p∈(approvalFields (desk status asked log).db 8).approvers, 0<p) :
    Kept (desk status asked log) 2 where
  statuses := by
    intro c hc
    rw [desk_requests,List.mem_singleton] at hc
    subst hc
    exact ⟨3,4,rfl,rfl,rfl,rfl⟩
  people := by
    intro c hc
    rw [desk_requests,List.mem_singleton] at hc
    subst hc
    exact h

/-- The page shows a request of a cancelled task open, counts a person who has no login any
more, and takes the vote of the account for another person it was linked to for the
viewer's own. -/
theorem views_disagree :
    (∃ list, approvalList (desk 5 [6] []) (fun _ => "") 20 (some 2)=.ok list∧
      Kept (desk 5 [6] []) 2∧¬Agree CardMove.allowed (desk 5 [6] []) 2 list ⟨some 20,some 6⟩)∧
    (∃ list, approvalList (desk 3 [6,9] []) (fun _ => "") 20 (some 2)=.ok list∧
      Kept (desk 3 [6,9] []) 2∧¬Agree CardMove.allowed (desk 3 [6,9] []) 2 list ⟨some 20,some 6⟩)∧
    ∃ list, approvalList (desk 3 [6] votedBefore) (fun _ => "") 20 (some 2)=.ok list∧
      Kept (desk 3 [6] votedBefore) 2∧
        ¬Agree CardMove.allowed (desk 3 [6] votedBefore) 2 list ⟨some 20,some 6⟩ := by
  refine ⟨?_,?_,?_⟩
  · obtain ⟨list,hlist⟩ := desk_listed 5 [6] []
    have hkept : Kept (desk 5 [6] []) 2 := desk_kept (by decide)
    refine ⟨list,hlist,hkept,fun ha => ?_⟩
    have hclear := clear_of_agree hkept hlist ha
    have hoff := (hclear.shown ⟨8,4,some 2,none,false,.triage⟩ (by decide)).mpr (by decide)
    cases hoff
  · obtain ⟨list,hlist⟩ := desk_listed 3 [6,9] []
    have hkept : Kept (desk 3 [6,9] []) 2 := desk_kept (by decide)
    refine ⟨list,hlist,hkept,fun ha => ?_⟩
    have hclear := clear_of_agree hkept hlist ha
    have hnine := (hclear.counted rfl ⟨8,4,some 2,none,false,.triage⟩ (by decide)).2 9 (by decide)
    exact absurd hnine (by decide)
  · obtain ⟨list,hlist⟩ := desk_listed 3 [6] votedBefore
    have hkept : Kept (desk 3 [6] votedBefore) 2 := desk_kept (by decide)
    refine ⟨list,hlist,hkept,fun ha => ?_⟩
    have hclear := clear_of_agree hkept hlist ha
    have hsix := hclear.answered rfl ⟨8,4,some 2,none,false,.triage⟩ (by decide) 6 (by decide) rfl
    have hvoted := hsix.mp ⟨20,rfl,by decide⟩ (by decide)
    exact absurd hvoted (by decide)

/-- Person 6 is asked by a task in review and hasn't voted. -/
theorem waiting_views_agree : ∃ list,
    approvalList (desk 3 [6] []) (fun _ => "") 20 (some 2)=.ok list∧
      Agree CardMove.allowed (desk 3 [6] []) 2 list ⟨some 20,some 6⟩ := by
  obtain ⟨list,hlist⟩ := desk_listed 3 [6] []
  have hkept : Kept (desk 3 [6] []) 2 := desk_kept (by decide)
  have hcard : unsettled (desk 3 [6] []) 2=[⟨8,4,some 2,none,false,.triage⟩] := rfl
  have hclear : Clear CardMove.allowed (desk 3 [6] []) 2 ⟨some 20,some 6⟩ := by
    refine ⟨?_,fun _ => ?_,fun _ => ?_⟩
    · rw [hcard]
      decide
    · rw [hcard]
      decide
    · rw [hcard]
      simp only [List.mem_singleton,forall_eq]
      intro p _ hme
      cases hme
      constructor
      · intro hmine
        obtain ⟨u,hu,hvoted⟩ := hmine
        cases hu
        exact absurd hvoted (by decide)
      · intro hvoted
        exact absurd (hvoted (by decide)) (by decide)
  exact ⟨list,hlist,(views_agree hkept hlist).mpr hclear⟩

end Kitp.Approvals
