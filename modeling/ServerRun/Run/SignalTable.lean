/-! Termination signals. A callback is installed for several signals, with the event loop where it
takes handlers for all of them, and in the table of handlers of the process otherwise; a
registration knows how to undo itself. -/

namespace ServerRun

/-- What handles a signal. -/
inductive SignalHandler where
  /-- What handled the signal before anything was installed. -/
  | earlier
  /-- A handler of the event loop; put back into the table of the process it no longer runs. -/
  | loop (live : Bool)
  /-- A handler that hands the callback to the event loop. -/
  | relay
deriving DecidableEq, Repr

/-- What happens to handlers and when a signal arrives. -/
inductive SignalEffect where
  | added (signal : String)
  | removed (signal : String)
  | set (signal : String) (handler : SignalHandler)
  | relayed
  | called
deriving DecidableEq, Repr

/-- The handlers of signals, and the signals that the event loop does not take handlers for. -/
structure SignalTable where
  unsupported : List String := []
  handlers : List (String × SignalHandler) := []
deriving Repr

/-- How to undo a registration. -/
inductive SignalRegistration where
  | loop
  | table (previous : List (String × SignalHandler))
deriving Repr

namespace SignalTable

/-- What handles a signal. -/
def handler (t : SignalTable) (signal : String) : SignalHandler :=
  ((t.handlers.find? fun h => h.1 == signal).map (·.2)).getD .earlier

def put (t : SignalTable) (signal : String) (h : SignalHandler) : SignalTable :=
  { t with handlers := (signal, h) :: t.handlers.filter fun k => k.1 != signal }

/-- Adds handlers of the event loop up to the first signal that it does not take; tells whether all
were added. -/
def addAll (t : SignalTable) : List String → SignalTable × List SignalEffect × Bool
  | [] => (t, [], true)
  | s :: rest =>
    if t.unsupported.contains s then (t, [], false)
    else
      let (t, es, all) := addAll (t.put s (.loop true)) rest
      (t, .added s :: es, all)

/-- Puts handlers into the table of the process. -/
def setAll (t : SignalTable) (hs : List (String × SignalHandler)) :
    SignalTable × List SignalEffect :=
  hs.foldl (fun r h => (r.1.put h.1 h.2, r.2 ++ [.set h.1 h.2])) (t, [])

/-- Each signal once, with what handles it. -/
def previous (t : SignalTable) (signals : List String) : List (String × SignalHandler) :=
  let shown : SignalHandler → SignalHandler
    | .loop _ => .loop false
    | h => h
  signals.eraseDups.map fun s => (s, shown (t.handler s))

/-- Installs the callback for signals. -/
def register (t : SignalTable) (signals : List String) :
    SignalTable × List SignalEffect × SignalRegistration :=
  let (t, added, all) := t.addAll signals
  if all then (t, added, .loop)
  else
    let previous := t.previous signals
    let (t, set) := t.setAll (signals.map (·, .relay))
    (t, added ++ set, .table previous)

/-- Undoes a registration. -/
def unregister (t : SignalTable) (signals : List String) :
    SignalRegistration → SignalTable × List SignalEffect
  | .loop =>
    (signals.foldl (fun t s => t.put s .earlier) t, signals.map .removed)
  | .table previous => t.setAll previous

/-- What happens when a signal arrives. -/
def arrive (t : SignalTable) (signal : String) : List SignalEffect :=
  match t.handler signal with
  | .loop true => [.called]
  | .relay => [.relayed, .called]
  | _ => []

end SignalTable

end ServerRun
