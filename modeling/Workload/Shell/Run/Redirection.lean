import Workload.Shell.Run.Program

/-!
# Redirections

Streams are opened to files, to other streams, and to documents.
-/

namespace Workload.Shell

section

variable (exec : Exec)

/-- What is wrong with the target of a redirection. -/
def redirectFault (writes : Bool) (path : String) (e : FileFault) (s : State) : State :=
  if s.isBash then (s.warn (path ++ ": " ++ reason e)).finish 1
  else
    let cause := match e with
      | .missing => if writes then "Directory nonexistent" else "No such file"
      | e => reason e
    (s.warn ((if writes then "cannot create " else "cannot open ") ++ path ++ ": " ++ cause)).finish 2

/-- Opens a path for a stream; none if that is not possible. -/
def openPath (stream : Nat) (path : String) (writes appends clears : Bool) (s : State) :
    Except FileFault State :=
  if path = "/dev/null" then .ok (s.openStream stream .nothing)
  else
    match State.streamPath? path with
    | some n =>
      match s.channelOf? n with
      | some c => .ok (s.connect stream c)
      | none => .error .missing
    | none => do
      let place ← s.place? path
      if writes then
        let sys ← s.sys.create place clears
        return { s with sys }.openStream stream (.file place 0 appends)
      else
        match s.sys.entry? place with
        | none => .error .missing
        | some _ => return s.openStream stream (.file place 0 false)

/-- Redirects a stream; tells whether that is possible. -/
def redirectOne (r : Redirect) (s : State) : State × Bool :=
  let capture := capture exec
  let o := r.operator
  if o = "<<" || o = "<<-" then
    let (text, s) := expandText capture r.target s
    (s.openStream (r.stream.getD 0) (.input text.toList), true)
  else
    let (targets, s) :=
      if o = "<<<" || !s.isBash then
        let (t, s) := expandText capture r.target s
        ([t], s)
      else expandArgument capture r.target s
    if s.flow.isSome then (s, false)
    else
      match targets with
      | [target] =>
        let opened := fun (stream : Nat) (writes appends clears : Bool) (s : State) =>
          match openPath stream target writes appends clears s with
          | .ok s => (s, true)
          | .error e => (redirectFault writes target e s, false)
        let both := fun (appends : Bool) (s : State) =>
          match opened 1 true appends (!appends) s with
          | (s, true) =>
            match s.channelOf? 1 with
            | some n => (s.connect 2 n, true)
            | none => (s, true)
          | r => r
        match o with
        | "<<<" => (s.openStream (r.stream.getD 0) (.input (target ++ "\n").toList), true)
        | "<" => opened (r.stream.getD 0) false false false s
        | "<>" => opened (r.stream.getD 0) true false false s
        | ">>" => opened (r.stream.getD 1) true true false s
        | "&>" => both false s
        | "&>>" => both true s
        | ">&" | "<&" =>
          let stream := r.stream.getD (if o = ">&" then 1 else 0)
          if target = "-" then (s.disconnect stream, true)
          else
            match Text.natOf? 10 target.toList with
            | some n =>
              match s.channelOf? n with
              | some c => (s.connect stream c, true)
              | none =>
                ((s.warn (target ++ ": Bad file descriptor")).finish (if s.isBash then 1 else 2), false)
            | none =>
              if s.isBash && o = ">&" && r.stream.isNone then both false s
              else if s.isBash then ((s.warn (target ++ ": ambiguous redirect")).finish 1, false)
              else (((s.warn "Syntax error: Bad fd number").finish 2).ends .failed, false)
        | _ =>
          let exists_ := match s.entry? target with
            | some .directory | none => false
            | some _ => target ≠ "/dev/null"
          if o = ">" && s.has "noclobber" && exists_ then
            if s.isBash then ((s.warn (target ++ ": cannot overwrite existing file")).finish 1, false)
            else ((s.warn ("cannot create " ++ target ++ ": File exists")).finish 2, false)
          else opened (r.stream.getD 1) true false true s
      | _ => ((s.warn "ambiguous redirect").finish 1, false)

/-- Redirects streams one after the other. -/
def redirectAll (rs : List Redirect) (s : State) : State × Bool :=
  rs.foldl (fun (s, good) r => if good then redirectOne exec r s else (s, false)) (s, true)

/-- Carries out something with redirected streams. -/
def redirected (rs : List Redirect) (act : State → State) (s : State) : State :=
  let streams := s.streams
  let (s, good) := redirectAll exec rs s
  { (if good then act s else s) with streams }

end

end Workload.Shell
