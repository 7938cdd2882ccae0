import GatewayFleet.Command.Help
import GatewayFleet.Command.Reach
import Std.Time.DateTime.PlainDateTime
import Std.Time.Zoned.TimeZone

/-! The program. It fills a tree with what a run depends on, lets the run change the tree, and
carries the changes over to the machine. All decisions are made by the run. -/

namespace GatewayFleet.Console

def look (l : Location) : IO (Option Entry) := do
  let p := (← IO.currentDir) / l.toString
  if ← p.isDir then pure (some .directory)
  else if ← p.pathExists then pure (some (.file (← IO.FS.readBinFile p)))
  else pure none

/-- What is known of the machine: the locations that were looked at, what stands at them, and the
variables that were asked for. -/
structure Known where
  looked : List Location
  tree : Tree
  asked : Fields (Option String)

def Known.nothing : Known := ⟨[], ⟨[]⟩, []⟩

def Known.look (k : Known) (l : Location) : IO Known := do
  if l ∈ k.looked then pure k
  else
    let tree := match ← Console.look l with
      | some e => k.tree.set l e
      | none => k.tree
    pure { k with looked := l :: k.looked, tree := tree }

def Known.ask (k : Known) (name : String) : IO Known := do
  if Fields.has k.asked name then pure k
  else pure { k with asked := Fields.put k.asked name (← IO.getEnv name) }

def Known.surroundings (k : Known) (cwd : Path) (stamp : Audit.Stamp) : Surroundings :=
  ⟨fun name => (Fields.get? k.asked name).join, cwd, stamp⟩

def Known.size (k : Known) : Nat := k.looked.length + k.asked.length

partial def Known.complete (k : Known) (i : Invocation) (cwd : Path) (stamp : Audit.Stamp) :
    IO Known := do
  let s := k.surroundings cwd stamp
  let wider ← (i.mentions s k.tree).foldlM Known.ask k
  let wider ← (i.reach s k.tree).foldlM Known.look wider
  if wider.size = k.size then pure k else wider.complete i cwd stamp

def extend (l : Location) (content : ByteArray) : IO Unit := do
  let handle ← IO.FS.Handle.mk l.toString .append
  handle.write content

def replace (l : Location) (content : ByteArray) : IO Unit := do
  let temporary := Disk.temporaryFor l.toPath (l.names.getLast?.getD "")
  IO.FS.writeBinFile temporary.toString content
  IO.FS.rename temporary.toString l.toString

def put (l : Location) (old : Option Entry) : Option Entry → IO Unit
  | none => do
    if ← ((← IO.currentDir) / l.toString).pathExists then IO.FS.removeFile l.toString
  | some .directory => IO.FS.createDirAll l.toString
  | some (.file content) =>
    match old with
    | some (.file front) =>
      if content.extract 0 front.size == front then
        extend l (content.extract front.size content.size)
      else replace l content
    | _ => replace l content

def carryOver (before after : Tree) : IO Unit :=
  (before.differences after).forM fun m => put m.1 (before.get? m.1) m.2

def now : IO Audit.Timestamp := do
  let moment := Std.Time.PlainDateTime.ofWallTime
    ((← Std.Time.Timestamp.now).toWallTime Std.Time.TimeZone.Offset.zero)
  let date := moment.date
  let time := moment.time
  let second := (time.hour.toNat * 60 + time.minute.toNat) * 60 + time.second.toNat
  pure ⟨⟨date.year, date.month.toNat, date.day.toNat⟩, second, false, time.nanosecond.toNat⟩

def hostFile : String := "/proc/sys/kernel/hostname"

def actor : IO String := do
  let user := (← IO.getEnv "USER") <|> (← IO.getEnv "USERNAME")
  let host ← (IO.FS.readFile hostFile).toBaseIO
  let host := match host with
    | .ok text => Text.trim text
    | .error _ => "unknown"
  pure (user.getD "unknown" ++ "@" ++ host)

/-- The reader of YAML here tells nothing more about a text that it refuses. -/
def refusal (_text : String) : String := "not a YAML document"

def serve (i : Invocation) : IO UInt32 := do
  let cwd := Path.ofString (← IO.currentDir).toString
  let stamp : Audit.Stamp := ⟨← now, ← actor⟩
  let known ← Known.nothing.complete i cwd stamp
  let (result, after) := (i.run (known.surroundings cwd stamp)).run known.tree
  carryOver known.tree after
  match result with
  | .ok text =>
    IO.print text
    pure 0
  | .error failure =>
    IO.eprintln ("Error: " ++ failure.report refusal)
    pure (UInt32.ofNat failure.exitCode)

def decline (u : Command.Usage) : IO UInt32 := do
  if u.exitCode = 0 then IO.println u.text else IO.eprintln u.text
  pure (UInt32.ofNat u.exitCode)

end GatewayFleet.Console

open GatewayFleet in
def main (args : List String) : IO UInt32 := do
  match Invocation.parse args with
  | .error usage => Console.decline usage
  | .ok invocation =>
    try Console.serve invocation
    catch e =>
      IO.eprintln ("Error: " ++ toString e)
      pure (UInt32.ofNat Category.io.exitCode)
