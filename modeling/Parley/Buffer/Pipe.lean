import Parley.Buffer.Coupling

/-!
# Pipes

One thread writes chunks into a buffer, closes it and tries to write once more; another reads
with given sizes, over and over, to the end of the stream or until it has had enough.
-/

namespace Parley.Buffer.Pipe

/-- A reader that reads with sizes in turn. -/
structure SizedReader where
  /-- The sizes, none of them zero. -/
  sizes : List Nat
  /-- The sizes not yet used in this round. -/
  round : List Nat
  /-- How many bytes are enough, if any number is. -/
  enough : Option Nat
  data : Array UInt8 := #[]
  /-- The end of the stream has been seen. -/
  ended : Bool := false

namespace SizedReader

/-- The size of the next read, cut to what is still wanted. -/
def demand (reader : SizedReader) : Option Nat :=
  let size := (reader.round ++ reader.sizes).head?
  if reader.ended then none
  else
    match reader.enough with
    | none => size
    | some enough =>
      if enough ≤ reader.data.size then none
      else size.map (min · (enough - reader.data.size))

def receive (reader : SizedReader) : Option (List UInt8) → SizedReader
  | none => { reader with ended := true }
  | some bytes => { reader with
      data := reader.data ++ bytes
      round := (if reader.round.isEmpty then reader.sizes else reader.round).tail }

/-- The program of the reader. -/
def consumer : Consumer SizedReader := { demand, receive }

end SizedReader

/-- How a pipe came out. -/
structure Report where
  /-- The first failed write, if any. -/
  write : Except BufferError Unit
  /-- The write after the close. -/
  afterClose : Except BufferError Unit
  data : List UInt8
  /-- The reader has seen the end of the stream. -/
  ended : Bool

/-- Sends the chunks through a buffer. -/
def run (pair : Pair) (chunks : List (List UInt8)) (sizes : List Nat) (enough : Option Nat) :
    Report :=
  let sizes := sizes.filter (0 < ·)
  let script := chunks.map Action.write ++ [.close, .write [0], .dropWriter]
  let coupling : Coupling SizedReader :=
    { pair, script, reader := { sizes, round := sizes, enough } }
  let turns := Coupling.turnsFor chunks.flatten.length script.length
  let coupling := coupling.finish SizedReader.consumer turns
  let written := coupling.written.toList
  { write := (written.take chunks.length).foldl (fun first next => first *> next) (.ok ())
    afterClose := (written.drop chunks.length).head?.getD (.ok ())
    data := coupling.reader.data.toList
    ended := coupling.reader.ended }

end Parley.Buffer.Pipe
