/-! Text written into a place that may run full. What fits is kept, and the
first character that does not fit is a failure. -/

namespace Ebnf

/-- The text kept so far, and how many more characters there is room for. -/
structure Sink where
  kept : String
  room : Option Nat
  deriving DecidableEq, Repr

/-- The failure of a sink that runs full. -/
inductive Full
  | full
  deriving DecidableEq, Repr

/-- Something that writes into a sink, and stops when the sink is full. -/
abbrev Writer := ExceptT Full (StateM Sink)

namespace Sink

def ofLimit (limit : Option Nat) : Sink := ⟨"", limit⟩

/-- Offers `text` to a sink: the sink after it, and whether all of it fitted. -/
def put (sink : Sink) (text : String) : Sink × Bool :=
  match sink.room with
  | none => (⟨sink.kept ++ text, none⟩, true)
  | some room =>
    (⟨sink.kept ++ String.ofList (text.toList.take room), some (room - text.length)⟩, text.length ≤ room)

end Sink

/-- Writes one piece of text. -/
def Writer.put (text : String) : Writer Unit := fun sink =>
  match sink.put text with
  | (sink, true) => (.ok (), sink)
  | (sink, false) => (.error .full, sink)

/-- What a writer leaves in an empty sink with room for `limit` characters, and
whether it got to its end. -/
def Writer.rendering (w : Writer Unit) (limit : Option Nat) : String × Bool :=
  match (w (.ofLimit limit)).run with
  | (.ok (), sink) => (sink.kept, true)
  | (.error .full, sink) => (sink.kept, false)

end Ebnf
