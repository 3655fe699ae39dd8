import Mathlib.Data.List.Induction
import Mathlib.Tactic.SplitIfs
import Workload.Docker.Provider

/-!
# Ports of cluster nodes

The nodes that run in containers have consecutive ports, in the order in which they were started, and
each name is recorded with the latest container of that name, whatever was provided and removed before
and wherever a start failed (`ports_consecutive`).  This rests on a program that lists exactly the nodes
that it has started and not removed since (`Tracks`).
-/

namespace Workload.Docker

/-- The container of a cluster node. -/
structure Node where
  name : String
  id : String
  port : Nat
  deriving DecidableEq, Repr

namespace Node

def server (n : Node) : Server := ⟨n.id, n.port⟩

/-- The latest node of a name. -/
def latest? (ns : List Node) (name : String) : Option Node := ns.reverse.find? fun n => n.name = name

/-- Nodes recorded in the order in which they were started. -/
def record (servers : Named Server) (ns : List Node) : Named Server :=
  (ns.map fun n => (n.name, n.server)).foldl (fun servers e => servers.put e.1 e.2) servers

/-- A name is recorded with its latest node, or as before. -/
theorem get?_record (servers : Named Server) (ns : List Node) (name : String) :
    (record servers ns).get? name = ((latest? ns name).map server).or (servers.get? name) := by
  unfold record latest?
  rw [Named.get?_foldl_put, ← List.map_reverse, List.find?_map, Option.map_map]
  rfl

theorem latest?_append (ns ms : List Node) (name : String) :
    latest? (ns ++ ms) name = (latest? ms name).or (latest? ns name) := by
  simp [latest?, List.find?_append]

end Node

/-! ## The program -/

/-- The call that starts a node. -/
def runServerArgs (name image : String) (port : Nat) : List String :=
  ["run", "-d", "--name", name, "--label", managedLabel ++ "=true", "--label", serverLabel ++ "=true",
    "-p", toString port ++ ":8091", image]

/-- The call that lists the nodes. -/
def listServersArgs : List String := ["ps", "-aq", "--filter", "label=" ++ serverLabel ++ "=true"]

variable {π : Type}

/-- A program that lists exactly the nodes that were started successfully and not removed since, in any
order.  A removal of all of them that fails leaves them there. -/
structure Tracks (p : Program π) (nodes : π → List Node) : Prop where
  run : ∀ name image port s,
    nodes (p (runServerArgs name image port) s).2 = nodes s ++
      ((p (runServerArgs name image port) s).1.result.toOption.map fun id => ⟨name, id, port⟩).toList
  list : ∀ s, ∃ out err, (p listServersArgs s).1 = .ended out err 0 ∧
    (Text.lines (Text.trimmed out)).Perm ((nodes s).map Node.id)
  list_keeps : ∀ s, nodes (p listServersArgs s).2 = nodes s
  kill : ∀ ids s, nodes (p ("kill" :: ids) s).2 = nodes s
  remove : ∀ ids s, ids.Perm ((nodes s).map Node.id) →
    nodes (p ("rm" :: "-f" :: ids) s).2 =
      if (p ("rm" :: "-f" :: ids) s).1.result.isOk then [] else nodes s

section Tracked

variable {p : Program π} {nodes : π → List Node} (hp : Tracks p nodes)
include hp

/-- A node that is started is there afterwards, and one that is not started is not. -/
theorem nodes_runServer (name image : String) (port : Nat) (s : π) :
    nodes (runServer p name image port s).2 = nodes s ++
      ((runServer p name image port s).1.toOption.map fun id => ⟨name, id, port⟩).toList := by
  show nodes (call p (runServerArgs name image port) s).2 = nodes s ++
    ((call p (runServerArgs name image port) s).1.result.toOption.map fun id => ⟨name, id, port⟩).toList
  unfold call
  split_ifs
  · exact hp.run name image port s
  · exact (List.append_nil _).symm

theorem listServers_spec (s : π) :
    ∃ ids s', listLabeled p serverLabel s = (.ok ids, s') ∧ nodes s' = nodes s ∧
      ids.Perm ((nodes s).map Node.id) := by
  obtain ⟨out, err, ha, hids⟩ := hp.list s
  refine ⟨_, (p listServersArgs s).2, ?_, hp.list_keeps s, hids⟩
  have hcall : call p listServersArgs s = p listServersArgs s := if_pos (by decide)
  show ((call p listServersArgs s).1.result.map Text.lines, (call p listServersArgs s).2) = _
  rw [hcall, ha]
  rfl

theorem countServers_spec (s : π) :
    ∃ s', countServers p s = (.ok (nodes s).length, s') ∧ nodes s' = nodes s := by
  obtain ⟨ids, s', hl, hn, hids⟩ := listServers_spec hp s
  refine ⟨s', ?_, hn⟩
  unfold countServers
  rw [hl, ← List.length_map Node.id, ← hids.length_eq]
  rfl

omit hp in
/-- What becomes of a call that is made or not: only its result is looked at. -/
theorem order_eq (args : List String) (s : π) :
    order p args s = ((call p args s).1.result.map fun _ => (), (call p args s).2) := rfl

/-- Stopping nodes takes none away. -/
theorem nodes_kill (ids : List String) (s : π) : nodes (reclaim p true ids s).2 = nodes s := by
  have hcall : nodes (call p ("kill" :: ids) s).2 = nodes s := by
    unfold call
    split_ifs
    · exact hp.kill ids s
    · rfl
  unfold reclaim
  split_ifs
  · rfl
  · rw [order_eq]
    split
    · rename_i ho
      have hs := congrArg Prod.snd ho
      split_ifs <;> exact (congrArg nodes hs).symm.trans hcall
    · exact hcall

omit hp in
theorem reclaim_hard {ids : List String} (h : ids ≠ []) (s : π) :
    reclaim p false ids s = order p ("rm" :: "-f" :: ids) s := by
  have hempty : ids.isEmpty = false := by simpa using h
  have hargs : reclaimArgs false ids = "rm" :: "-f" :: ids := rfl
  unfold reclaim
  rw [hempty, if_neg (by simp), hargs]
  split
  · rename_i ho
    rw [Bool.false_and, if_neg (by simp), ho]
  · rfl

/-- Removing all nodes takes all of them away, or none if it fails. -/
theorem nodes_remove {ids : List String} {s : π} (hids : ids.Perm ((nodes s).map Node.id)) :
    nodes (reclaim p false ids s).2 = if (reclaim p false ids s).1.isOk then [] else nodes s := by
  by_cases hempty : ids = []
  · subst hempty
    have hnone : nodes s = [] := List.map_eq_nil_iff.1 hids.nil_eq.symm
    rw [hnone, ite_self]
    exact hnone
  · have hok : ∀ a : Answer, (a.result.map fun _ => ()).isOk = a.result.isOk := by
      intro a
      cases a.result <;> rfl
    rw [reclaim_hard hempty, order_eq, hok]
    unfold call
    split_ifs with hargs hresult hresult
    · rw [hp.remove ids s hids, if_pos hresult]
    · rw [hp.remove ids s hids, if_neg hresult]
    · cases hresult
    · rfl

/-- Removing all nodes takes all of them away, or none if it fails; stopping them takes none away. -/
theorem nodes_removeServers (soft : Bool) (s : π) :
    nodes (removeServers p soft s).2 =
      if (removeServers p soft s).1.isOk ∧ soft = false then [] else nodes s := by
  obtain ⟨ids, s', hl, hn, hids⟩ := listServers_spec hp s
  have hreclaim : removeServers p soft s = reclaim p soft ids s' := by
    unfold removeServers reclaimLabeled
    rw [hl]
  rw [hreclaim, ← hn]
  cases soft with
  | true => simp [nodes_kill hp ids s']
  | false => simp [nodes_remove hp (hn ▸ hids)]

end Tracked

/-! ## Starting nodes -/

/-- What a call that starts nodes made of an engine: the nodes started are the first of a list of names,
have the ports after those there before, and are recorded in their order; the others are not recorded. -/
structure Starts (nodes : π → List Node) (names : List String) (before : Nat) (e e' : Engine π)
    (r : Reply RuntimeFault Unit) (started : List Node) : Prop where
  nodes : nodes e'.program = nodes e.program ++ started
  servers : e'.servers = Node.record e.servers started
  ports : ∀ i n, started[i]? = some n → portOf? (before + i) = some n.port
  /-- All of them are started, or the first that is not ends it, be it that there is no port for it. -/
  outcome : started.map Node.name = names ∧ r.result = .ok () ∧ r.broken = false ∨
    ∃ name later, names = started.map Node.name ++ name :: later ∧
      ((∃ fault, r.result = .error fault) ∧ r.broken = false ∨
        portOf? (before + started.length) = none ∧ r.broken = true)

variable {p : Program π} {nodes : π → List Node} {o : Options}

theorem startServers_spec (hp : Tracks p nodes) (before : Nat) (names : List String) (e : Engine π) :
    ∃ started, Starts nodes names before e (startServers p o before names e).2
      (startServers p o before names e).1 started := by
  induction names generalizing before e with
  | nil =>
    exact ⟨[], (List.append_nil _).symm, rfl, fun _ _ h => absurd h (by simp), .inl ⟨rfl, rfl, rfl⟩⟩
  | cons name names ih =>
    unfold startServers
    cases hport : portOf? before with
    | none =>
      exact ⟨[], (List.append_nil _).symm, rfl, fun _ _ h => absurd h (by simp),
        .inr ⟨name, names, rfl, .inr ⟨hport, rfl⟩⟩⟩
    | some port =>
      have hnodes := nodes_runServer hp name o.serverImage port e.program
      rcases hrun : runServer p name o.serverImage port e.program with ⟨result, program⟩
      rw [hrun] at hnodes
      simp only [hrun]
      cases result with
      | error fault =>
        exact ⟨[], hnodes, rfl, fun _ _ h => absurd h (by simp),
          .inr ⟨name, names, rfl, .inl ⟨⟨fault, rfl⟩, rfl⟩⟩⟩
      | ok id =>
        obtain ⟨started, hstarted⟩ :=
          ih (before + 1) { e with program, servers := e.servers.put name ⟨id, port⟩ }
        refine ⟨⟨name, id, port⟩ :: started, ?_, hstarted.servers, fun i n hi => ?_, ?_⟩
        · rw [hstarted.nodes]
          show nodes program ++ started = _
          rw [hnodes, List.append_assoc]
          rfl
        · cases i with
          | zero =>
            obtain rfl := Option.some.inj hi
            exact hport
          | succ i =>
            rw [← hstarted.ports i n hi, Nat.add_assoc, Nat.add_comm 1 i]
        · rcases hstarted.outcome with ⟨hall, hok, hb⟩ | ⟨next, later, hnames, hend⟩
          · exact .inl ⟨congrArg (name :: ·) hall, hok, hb⟩
          · refine .inr ⟨next, later, congrArg (name :: ·) hnames, hend.imp_right fun ⟨hnone, hb⟩ => ?_⟩
            refine ⟨?_, hb⟩
            rw [List.length_cons, ← hnone, Nat.add_comm started.length, Nat.add_assoc]

/-! ## Providing and removing -/

/-- What is asked of a provider. -/
inductive Request where
  | provide (t : Topology)
  | remove (soft : Bool)

def Request.call (p : Program π) (o : Options) : Request → Call (World (Engine π)) ProviderFault Unit
  | .provide t => Docker.provide p o t
  | .remove soft => dismiss p soft

/-- The world after requests. -/
def serve (p : Program π) (o : Options) (w : World (Engine π)) (rs : List Request) : World (Engine π) :=
  rs.foldl (fun w r => (r.call p o w).2) w

/-- The nodes that are there have consecutive ports, and each name is recorded with the latest of them. -/
structure InStep (ns : List Node) (servers : Named Server) : Prop where
  ports : ns.map Node.port = List.range' firstPort ns.length
  recorded : ∀ name, servers.get? name = (Node.latest? ns name).map Node.server

/-- What providing a topology comes to: nodes are started for the first of its names and recorded, and it
ends well if that was all of them, and with a fault if the next one failed to start. -/
def Provided (t : Topology) (ns ns' : List Node) (servers servers' : Named Server)
    (r : Reply ProviderFault Unit) : Prop :=
  ∃ started, ns' = ns ++ started ∧ servers' = Node.record servers started ∧
    (t.nodeNames? = none ∧ started = [] ∧ r.broken = true ∨
      ∃ names, t.nodeNames? = some names ∧ r.broken = false ∧
        (names = started.map Node.name ∧ r.result = .ok () ∨
          ∃ name later fault, names = started.map Node.name ++ name :: later ∧
            r.result = .error fault))

/-- How many nodes there are ports for. -/
def portCount : Nat := maxPort + 1 - firstPort

theorem portOf?_of_lt {before : Nat} (h : before < portCount) :
    portOf? before = some (firstPort + before) := by
  have hmod : before % (maxPort + 1) = before :=
    Nat.mod_eq_of_lt (Nat.lt_of_lt_of_le h (Nat.sub_le _ _))
  unfold portOf?
  simp only [hmod]
  exact if_pos (by unfold portCount at h; omega)

namespace InStep

variable {ns started : List Node} {servers : Named Server}

theorem none : InStep [] [] := ⟨rfl, fun _ => rfl⟩

/-- Nodes that get the next ports and are recorded keep both in step. -/
theorem append (h : InStep ns servers)
    (hports : ∀ i n, started[i]? = some n → portOf? (ns.length + i) = some n.port)
    (hfew : ns.length + started.length ≤ portCount) :
    InStep (ns ++ started) (Node.record servers started) := by
  have hstarted : started.map Node.port =
      List.range' (firstPort + ns.length) started.length := by
    refine List.ext_getElem (by simp) fun i hi _ => ?_
    have hlt : i < started.length := by simpa using hi
    have hport := hports i started[i] (List.getElem?_eq_getElem hlt)
    rw [portOf?_of_lt (by omega)] at hport
    rw [List.getElem_map, List.getElem_range', ← Option.some.inj hport]
    omega
  refine ⟨?_, fun name => ?_⟩
  · rw [List.map_append, h.ports, hstarted, List.length_append, List.range'_append_1]
  · rw [Node.get?_record, Node.latest?_append, h.recorded]
    cases Node.latest? started name <;> rfl

end InStep

section Requests

variable {w : World (Engine π)} (hp : Tracks p nodes)
include hp

theorem provided {t : Topology} (hfew : (nodes (provide p o t w).2.containers.program).length <
    portCount) (h : InStep (nodes w.containers.program) w.containers.servers) :
    Provided t (nodes w.containers.program) (nodes (provide p o t w).2.containers.program)
        w.containers.servers (provide p o t w).2.containers.servers (provide p o t w).1 ∧
      InStep (nodes (provide p o t w).2.containers.program)
        (provide p o t w).2.containers.servers := by
  obtain ⟨s', hcount, hsame⟩ := countServers_spec hp w.containers.program
  unfold provide at hfew ⊢
  simp only [hcount] at hfew ⊢
  cases hnames : t.nodeNames? with
  | none =>
    have hkeeps : nodes s' = nodes w.containers.program := hsame
    exact ⟨⟨[], by simp [hkeeps], rfl, .inl ⟨hnames, rfl, rfl⟩⟩, hkeeps ▸ h⟩
  | some names =>
    rw [hnames] at hfew
    obtain ⟨started, hstarts⟩ := startServers_spec (o := o) hp (nodes w.containers.program).length
      names { w.containers with program := s' }
    have hnodes := hstarts.nodes.trans (congrArg (· ++ started) hsame)
    have hlen : (nodes w.containers.program).length + started.length < portCount := by
      rw [← List.length_append, ← hnodes]
      exact hfew
    refine ⟨⟨started, hnodes, hstarts.servers, .inr ⟨names, hnames, ?_⟩⟩, ?_⟩
    · rcases hstarts.outcome with ⟨hall, hok, hb⟩ | ⟨name, later, hsome, ⟨⟨fault, hr⟩, hb⟩ | ⟨hport, -⟩⟩
      · exact ⟨hb, .inl ⟨hall.symm, congrArg (Except.mapError _) hok⟩⟩
      · exact ⟨hb, .inr ⟨name, later, .runtime fault, hsome, congrArg (Except.mapError _) hr⟩⟩
      · rw [portOf?_of_lt hlen] at hport
        cases hport
    · have hstep := h.append hstarts.ports (Nat.le_of_lt hlen)
      rw [← hnodes] at hstep
      exact hstarts.servers ▸ hstep

/-- Removing all nodes forgets all of them if it goes well, and none otherwise. -/
theorem dismissed (soft : Bool) (h : InStep (nodes w.containers.program) w.containers.servers) :
    InStep (nodes (dismiss p soft w).2.containers.program)
      (dismiss p soft w).2.containers.servers := by
  have hnodes := nodes_removeServers hp soft w.containers.program
  unfold dismiss onProgram
  rcases hr : removeServers p soft w.containers.program with ⟨result, s'⟩
  rw [hr] at hnodes
  cases result with
  | error fault =>
    have hkeeps : nodes s' = nodes w.containers.program := hnodes
    exact hkeeps ▸ h
  | ok u =>
    cases soft with
    | true =>
      have hkeeps : nodes s' = nodes w.containers.program := hnodes
      exact hkeeps ▸ h
    | false =>
      have hnone : nodes s' = [] := hnodes
      exact hnone ▸ .none

omit hp in
theorem serve_concat (rs : List Request) (r : Request) :
    serve p o w (rs ++ [r]) = (r.call p o (serve p o w rs)).2 := by
  simp [serve]

theorem inStep_serve (hnone : nodes w.containers.program = []) (hfresh : w.containers.servers = [])
    (rs : List Request)
    (hfew : ∀ done, done <+: rs → (nodes (serve p o w done).containers.program).length < portCount) :
    InStep (nodes (serve p o w rs).containers.program) (serve p o w rs).containers.servers := by
  induction rs using List.reverseRecOn with
  | nil =>
    show InStep (nodes w.containers.program) w.containers.servers
    rw [hnone, hfresh]
    exact .none
  | append_singleton rs r ih =>
    have hbefore := ih fun done hdone => hfew done (hdone.trans (List.prefix_append rs [r]))
    have hafter := hfew (rs ++ [r]) (List.prefix_refl _)
    rw [serve_concat] at hafter ⊢
    cases r with
    | provide t => exact (provided hp hafter hbefore).2
    | remove soft => exact dismissed hp soft hbefore

end Requests

/-- Against a program that lists the nodes that are there, and for any requests in which there are never
57000 of them: the nodes that are there have the ports from the first one on, in the order in which they
were started; a node that is there is found at the port of the latest container of its name; and providing
nodes records those that were started before one failed, and no other one. -/
theorem ports_consecutive (hp : Tracks p nodes) (o : Options) {w : World (Engine π)}
    (hnone : nodes w.containers.program = []) (hfresh : w.containers.servers = [])
    (rs : List Request)
    (hfew : ∀ done, done <+: rs → (nodes (serve p o w done).containers.program).length < 57000) :
    (nodes (serve p o w rs).containers.program).map Node.port =
        List.range' 8091 (nodes (serve p o w rs).containers.program).length ∧
      (∀ name, (rest o name (serve p o w rs)).1 =
        match Node.latest? (nodes (serve p o w rs).containers.program) name with
        | some n => .done (o.host ++ ":" ++ toString n.port)
        | none => .failed (.unknownNode name)) ∧
      ∀ done t, done ++ [.provide t] <+: rs →
        Provided t (nodes (serve p o w done).containers.program)
          (nodes (provide p o t (serve p o w done)).2.containers.program)
          (serve p o w done).containers.servers
          (provide p o t (serve p o w done)).2.containers.servers
          (provide p o t (serve p o w done)).1 := by
  have hfew' : ∀ done, done <+: rs →
      (nodes (serve p o w done).containers.program).length < portCount := fun done hdone =>
    Nat.lt_of_lt_of_le (hfew done hdone) (by decide)
  have hstep := inStep_serve (o := o) hp hnone hfresh rs hfew'
  refine ⟨hstep.ports, fun name => ?_, fun done t hdone => ?_⟩
  · unfold rest
    rw [hstep.recorded]
    cases Node.latest? (nodes (serve p o w rs).containers.program) name <;> rfl
  · have hbefore := inStep_serve (o := o) hp hnone hfresh done fun d hd =>
      hfew' d (hd.trans ((List.prefix_append done _).trans hdone))
    have hafter := hfew' _ hdone
    rw [serve_concat] at hafter
    exact (provided hp hafter hbefore).1

/-! ### A program with room for three nodes -/

def roomIds : List String := ["3f1c09", "9a40de", "b7d251"]

/-- The port of the host that a port of a container is published on. -/
def hostPort (published : String) : Nat :=
  Nat.ofDigitChars 10 (published.toList.takeWhile Char.isDigit) 0

/-- A program that keeps the names and ports of the nodes it started, lists the latest first, and fails to
start a fourth one. -/
def roomForThree : Program (List (String × Nat))
  | ["run", "-d", "--name", name, "--label", _, "--label", _, "-p", published, _], s =>
    match roomIds[s.length]? with
    | some id => (.ended (id ++ "\n") "" 0, s ++ [(name, hostPort published)])
    | none => (.ended "" "no space left on device" 125, s)
  | ["ps", "-aq", "--filter", _], s =>
    (.ended (String.intercalate "\n" (roomIds.take s.length).reverse) "" 0, s)
  | "rm" :: "-f" :: _, _ => (.ended "" "" 0, [])
  | _, s => (.ended "" "" 0, s)

def roomNodes (s : List (String × Nat)) : List Node :=
  List.zipWith (fun e id => ⟨e.1, id, e.2⟩) s roomIds

theorem hostPort_published (port : Nat) : hostPort (toString port ++ ":8091") = port := by
  have htoString : toString port = port.repr := rfl
  have hdigits : (Nat.toDigits 10 port ++ ":8091".toList).takeWhile Char.isDigit =
      Nat.toDigits 10 port := by
    rw [List.takeWhile_append_of_pos fun c hc => Nat.isDigit_of_mem_toDigits (by decide) (by decide) hc]
    exact List.append_nil _
  unfold hostPort
  rw [htoString, String.toList_append, Nat.toList_repr, hdigits, Nat.ofDigitChars_ten_toDigits]

theorem map_id_roomNodes (s : List (String × Nat)) :
    (roomNodes s).map Node.id = roomIds.take s.length := by
  rcases s with _ | ⟨_, _ | ⟨_, _ | ⟨_, s⟩⟩⟩ <;> simp [roomNodes, roomIds]

theorem roomForThree_list (s : List (String × Nat)) :
    (Text.lines (Text.trimmed (String.intercalate "\n" (roomIds.take s.length).reverse))).Perm
      (roomIds.take s.length) := by
  have hfew : ∀ n < 4, (Text.lines (Text.trimmed
      (String.intercalate "\n" (roomIds.take n).reverse))).Perm (roomIds.take n) := by
    decide +kernel
  rw [List.take_eq_take_min]
  exact hfew _ (Nat.lt_succ_of_le (Nat.min_le_right _ _))

theorem zipWith_concat {α β γ : Type} (f : α → β → γ) (as : List α) (a : α) {bs : List β} {b : β}
    (h : bs[as.length]? = some b) :
    List.zipWith f (as ++ [a]) bs = List.zipWith f as bs ++ [f a b] := by
  induction as generalizing bs with
  | nil =>
    cases bs with
    | nil => cases h
    | cons b' bs => exact congrArg (fun b => [f a b]) (Option.some.inj h)
  | cons a' as ih =>
    cases bs with
    | nil => cases h
    | cons b' bs => exact congrArg (f a' b' :: ·) (ih h)

theorem roomForThree_run (name image : String) (port : Nat) (s : List (String × Nat)) :
    roomNodes (roomForThree (runServerArgs name image port) s).2 = roomNodes s ++
      ((roomForThree (runServerArgs name image port) s).1.result.toOption.map fun id =>
        ⟨name, id, port⟩).toList := by
  have hrun : roomForThree (runServerArgs name image port) s =
      match roomIds[s.length]? with
      | some id => (.ended (id ++ "\n") "" 0, s ++ [(name, port)])
      | none => (.ended "" "no space left on device" 125, s) := by
    simp only [roomForThree, runServerArgs, hostPort_published]
  rw [hrun]
  cases hid : roomIds[s.length]? with
  | none => exact (List.append_nil _).symm
  | some id =>
    have htrim : ∀ id ∈ roomIds, Text.trimmed (id ++ "\n") = id := by decide +kernel
    have hresult : (Answer.ended (id ++ "\n") "" 0).result = .ok id :=
      congrArg Except.ok (htrim id (List.mem_of_getElem? hid))
    simp only [hresult]
    exact zipWith_concat _ s (name, port) hid

theorem roomForThree_tracks : Tracks roomForThree roomNodes where
  run := roomForThree_run
  list s := ⟨_, _, rfl, (map_id_roomNodes s).symm ▸ roomForThree_list s⟩
  list_keeps _ := rfl
  kill _ _ := rfl
  remove _ _ _ := rfl

/-- Two nodes are provided and stopped, and of two further ones the second fails to start. -/
def roomRequests : List Request :=
  [.provide { servers := [{ name := "db", count := 2 }] }, .remove true,
    .provide { servers := [{ name := "app", count := 2 }] }]

theorem ports_consecutive_room :
    let w : World (Engine (List (String × Nat))) := { containers := { program := [] } }
    (roomNodes (serve roomForThree {} w roomRequests).containers.program).map Node.port =
        [8091, 8092, 8093] ∧
      (rest {} "app1" (serve roomForThree {} w roomRequests)).1 = .done "127.0.0.1:8093" ∧
      (rest {} "app2" (serve roomForThree {} w roomRequests)).1 = .failed (.unknownNode "app2") := by
  intro w
  have hfew : ∀ done, done <+: roomRequests →
      (roomNodes (serve roomForThree {} w done).containers.program).length < 57000 := fun done _ =>
    Nat.lt_of_le_of_lt (List.length_zipWith ▸ Nat.min_le_right _ _) (by decide)
  obtain ⟨hports, hrest, -⟩ := ports_consecutive roomForThree_tracks {} rfl rfl roomRequests hfew
  have hcount : (roomNodes (serve roomForThree {} w roomRequests).containers.program).length = 3 := by
    decide +kernel
  refine ⟨?_, ?_, ?_⟩
  · rw [hports, hcount]
    rfl
  · rw [hrest]
    have hlatest : Node.latest? (roomNodes (serve roomForThree {} w roomRequests).containers.program)
        "app1" = some ⟨"app1", "b7d251", 8093⟩ := by decide +kernel
    rw [hlatest]
    rfl
  · rw [hrest]
    have hlatest : Node.latest? (roomNodes (serve roomForThree {} w roomRequests).containers.program)
        "app2" = none := by decide +kernel
    rw [hlatest]

end Workload.Docker
