import AndroidAppliance.Transition.Machine
import Mathlib.Logic.Function.Basic

/-!
# The AVD on disk and its record

The file operations of `appliance/avd.py`, the record of the AVD in state.json, and
`Supervisor._prepare` and `_booted`, which decide over them. The machine `avdMachine` runs
them over any number of daemon lifetimes: one step is one file operation, the daemon can be
killed between any two of them, an operation can raise, and between two lifetimes others
can put an AVD in place or take it away.

A directory carries the history that the decisions are judged by (`own`, `adopted`,
`recorded`, `unmarked`); no operation reads it. Of state.json only the record of the AVD
matters here. Markers are numbered by the draw that gave them, as the draws are distinct.
-/

namespace AndroidAppliance

namespace Avd

/-! ### The disk -/

/-- A first-boot marker, by the number of its draw. -/
abbrev Marker := Nat

/-- The file `FIRST_BOOT_MARKER`. -/
inductive MarkerFile
  | absent
  /-- A text that is no marker, as after a write that was cut. -/
  | other
  | whole (m : Marker)
  deriving DecidableEq, Repr

/-- An AVD directory. -/
structure Dir where
  /-- config.ini. -/
  config : Bool
  /-- The temporary file of `_write`. -/
  tmp : Bool
  marker : MarkerFile
  /-- Userdata and all other files. -/
  data : Bool
  /-- The marker that `create` wrote here. -/
  own : Option Marker
  /-- `_prepare` adopted it. -/
  adopted : Bool
  /-- A record that says "booted" reached state.json. -/
  recorded : Bool
  /-- `_booted` removed the marker. -/
  unmarked : Bool
  deriving DecidableEq, Repr

/-- An AVD that others put in place: it has no marker of this appliance. -/
structure Foreign where
  config : Bool
  tmp : Bool
  /-- A marker file with some other text. -/
  text : Bool
  data : Bool
  deriving DecidableEq, Repr

/-- The directory of such an AVD. -/
def Foreign.dir (f : Foreign) : Dir :=
  { config := f.config, tmp := f.tmp, marker := if f.text then .other else .absent,
    data := f.data, own := none, adopted := false, recorded := false, unmarked := false }

/-- A directory that `create` made and put nothing into yet. -/
def Dir.empty : Dir :=
  { config := false, tmp := false, marker := .absent, data := false, own := none,
    adopted := false, recorded := false, unmarked := false }

/-- `any(cfg.avd_dir.iterdir())` is false. -/
def Dir.isEmpty (d : Dir) : Bool := !d.config && !d.tmp && d.marker == .absent && !d.data

/-- What `shutil.rmtree` removes. -/
inductive Entry
  | config
  | tmp
  | marker
  | data
  deriving DecidableEq, Repr

/-- One file is gone. -/
def Dir.remove (d : Dir) : Entry → Dir
  | .config => { d with config := false }
  | .tmp => { d with tmp := false }
  | .marker => { d with marker := .absent }
  | .data => { d with data := false }

/-- `avd.exists`. -/
def exists_ (d : Option Dir) : Bool := d.any (·.config)

/-- `avd.first_boot_marker`. -/
def firstBootMarker (d : Option Dir) : MarkerFile :=
  match d with
  | some d => d.marker
  | none => .absent

/-- `fresh` in `avd.create`. -/
def fresh (d : Option Dir) : Bool := d.all Dir.isEmpty

/-- `data["avd"]` of state.json. -/
structure Record where
  name : String
  created : Bool
  booted : Bool
  marker : Option Marker
  deriving DecidableEq, Repr

/-! ### The daemon -/

/-- The next file operation of `avd.create`. -/
inductive CreatePc
  | mkdir
  /-- The registry file beside the directory. -/
  | registry
  /-- config.ini, as a temporary file. -/
  | config
  /-- `os.replace` of config.ini. -/
  | configReplace
  /-- The marker file, opened. -/
  | markerOpen
  /-- The marker file, written. -/
  | markerWrite
  deriving DecidableEq, Repr

/-- The next file operation of the daemon. -/
inductive Pc
  /-- No boot is in progress. -/
  | idle
  /-- `avd.delete(cfg, marker)`. -/
  | delete (m : Marker)
  /-- `shutil.rmtree` in `avd.delete`. -/
  | rmtree (m : Marker)
  | create (pc : CreatePc) (fresh : Bool)
  /-- `store.save()` in `_prepare`. -/
  | save
  /-- `avd.configure`. -/
  | configure
  /-- `_prepare` is done and the guest has not reported its boot. -/
  | booting
  /-- `store.save()` in `_booted`. -/
  | bootSave
  /-- `avd.first_boot_done`. -/
  | firstBootDone
  /-- The guest has reported its boot. -/
  | up
  deriving DecidableEq, Repr

/-- The parts of a boot at which the daemon awaits something. -/
def Pc.awaits : Pc → Bool
  | .idle | .booting | .up => true
  | _ => false

/-- A running daemon. -/
structure Daemon where
  /-- `cfg.avd_name`. -/
  name : String
  /-- `store.data["avd"]`. -/
  record : Option Record
  pc : Pc
  deriving DecidableEq, Repr

/-- The disk and the daemon, if one runs. -/
structure World where
  avds : String → Option Dir
  /-- The record in state.json. -/
  stored : Option Record
  daemon : Option Daemon
  /-- How many markers have been drawn. -/
  drawn : Nat

namespace World

/-- Change one directory. -/
def setDir (w : World) (name : String) (d : Option Dir) : World :=
  { w with avds := Function.update w.avds name d }

/-- Change the files of a directory that exists. -/
def mapDir (w : World) (name : String) (f : Dir → Dir) : World :=
  w.setDir name ((w.avds name).map f)

/-- The daemon moves on, with its record as it is. -/
def goto (w : World) (c : Daemon) (pc : Pc) : World :=
  { w with daemon := some { c with pc } }

/-- The daemon moves on with a new record. -/
def remember (w : World) (c : Daemon) (r : Record) (pc : Pc) : World :=
  { w with daemon := some { c with record := some r, pc } }

/-- `store.save()` that works. -/
def saved (w : World) (c : Daemon) : World :=
  let w := { w with stored := c.record }
  match c.record with
  | some r => if r.booted then w.mapDir r.name ({ · with recorded := true }) else w
  | none => w

/-- `_prepare` after the check for an unfinished first boot. -/
def proceed (w : World) (c : Daemon) (record : Option Record) : World :=
  if exists_ (w.avds c.name) then
    match record with
    | some r => w.remember c r .save
    | none =>
      (w.mapDir c.name ({ · with adopted := true })).remember c
        { name := c.name, created := false, booted := true, marker := none } .save
  else w.goto c (.create .mkdir (fresh (w.avds c.name)))

/-- `_prepare` up to its first file operation that writes. -/
def prepare (w : World) (c : Daemon) : World :=
  match c.record.filter (·.name = c.name) with
  | none => w.proceed c none
  | some r =>
    if exists_ (w.avds c.name) && r.created && !r.booted then
      match r.marker with
      | some m =>
        if firstBootMarker (w.avds c.name) = .whole m then w.goto c (.delete m)
        else w.proceed c none
      | none => w.proceed c none
    else w.proceed c (some r)

/-- A file operation of `avd.create`. The last one makes the record. -/
def create (w : World) (c : Daemon) (fresh : Bool) : CreatePc → World
  | .mkdir =>
    (if fresh then w.setDir c.name (some .empty) else w).goto c (.create .registry fresh)
  | .registry => w.goto c (.create .config fresh)
  | .config => (w.mapDir c.name ({ · with tmp := true })).goto c (.create .configReplace fresh)
  | .configReplace =>
    let w := w.mapDir c.name ({ · with tmp := false, config := true })
    if fresh then w.goto c (.create .markerOpen fresh)
    else w.remember c { name := c.name, created := false, booted := false, marker := none } .save
  | .markerOpen =>
    (w.mapDir c.name ({ · with marker := .other })).goto c (.create .markerWrite fresh)
  | .markerWrite =>
    { w.mapDir c.name ({ · with marker := .whole w.drawn, own := some w.drawn }) with
      drawn := w.drawn + 1 }.remember c
        { name := c.name, created := true, booted := false, marker := some w.drawn } .save

/-- `_booted` up to its first file operation. -/
def booted (w : World) (c : Daemon) : World :=
  match c.record with
  | some r =>
    if r.booted then w.goto c .up
    else w.remember c { r with booted := true, marker := none } .bootSave
  -- a record that is not in the data is saved nowhere
  | none => w.goto c .bootSave

/-- The next file operation works. -/
def next (w : World) (c : Daemon) : Option World :=
  match c.pc with
  | .delete m =>
    -- `delete` reads the marker again, and refuses with an AvdError
    some (if firstBootMarker (w.avds c.name) = .whole m then w.goto c (.rmtree m)
      else w.goto c .idle)
  | .rmtree _ =>
    if (w.avds c.name).any Dir.isEmpty then
      some ((w.setDir c.name none).goto c (.create .mkdir true))
    else none
  | .create pc fresh => some (w.create c fresh pc)
  | .save => some ((w.saved c).goto c .configure)
  | .configure => some (w.goto c .booting)
  | .bootSave => some ((w.saved c).goto c .firstBootDone)
  | .firstBootDone =>
    some ((w.mapDir c.name ({ · with marker := .absent, unmarked := true })).goto c .up)
  | .idle | .booting | .up => none

/-- The next file operation raises. `store.save` and `_booted` go on after an OSError, and
everything else ends the boot. -/
def raised (w : World) (c : Daemon) : Option World :=
  match c.pc with
  | .save => some (w.goto c .configure)
  | .bootSave => some (w.goto c .firstBootDone)
  | .firstBootDone => some (w.goto c .up)
  | .delete _ | .rmtree _ | .create _ _ | .configure => some (w.goto c .idle)
  | .idle | .booting | .up => none

end World

/-! ### The machine -/

/-- What happens to the directory of AVDs. -/
inductive Event
  /-- A daemon starts; whether state.json could be read. -/
  | launch (name : String) (readable : Bool)
  | kill
  /-- Others put an AVD in place, or take it away. -/
  | replace (name : String) (f : Option Foreign)
  /-- `store.save()` for the activity or the crash history. -/
  | save (ok : Bool)
  /-- `_prepare` begins; whether `avd.system_image` finds the image. -/
  | prepare (image : Bool)
  /-- The next file operation works. -/
  | next
  /-- `shutil.rmtree` removes a file. -/
  | remove (e : Entry)
  /-- The next file operation raises. -/
  | raised
  /-- `configure` or the emulator writes a file. -/
  | write (tmp data : Bool)
  /-- `_booted` begins. -/
  | booted
  /-- The boot fails, is stopped, or crashes. -/
  | finished
  deriving DecidableEq, Repr

namespace World

/-- A daemon starts, and reads state.json. -/
def launch (w : World) (name : String) (readable : Bool) : World :=
  { w with
    daemon := some { name, record := if readable then w.stored else none, pc := .idle } }

/-- The daemon is killed. -/
def kill (w : World) : World := { w with daemon := none }

/-- One step. -/
def step (w : World) : Event → Option World
  | .launch name readable =>
    match w.daemon with
    | none => some (w.launch name readable)
    | some _ => none
  | .kill => w.daemon.map fun _ => w.kill
  | .replace name f =>
    match w.daemon with
    | none => some (w.setDir name (f.map Foreign.dir))
    | some _ => none
  | .save ok => w.daemon.bind fun c =>
      if c.pc.awaits then some (if ok then w.saved c else w) else none
  | .prepare image => w.daemon.bind fun c =>
      if c.pc = .idle then some (if image then w.prepare c else w) else none
  | .next => w.daemon.bind fun c => w.next c
  | .remove e => w.daemon.bind fun c =>
      match c.pc with
      | .rmtree _ => some (w.mapDir c.name (·.remove e))
      | _ => none
  | .raised => w.daemon.bind fun c => w.raised c
  | .write tmp data => w.daemon.bind fun c =>
      if c.pc = .configure ∨ c.pc = .booting ∨ c.pc = .up then
        some (w.mapDir c.name fun d => { d with tmp, data := d.data || data })
      else none
  | .booted => w.daemon.bind fun c => if c.pc = .booting then some (w.booted c) else none
  | .finished => w.daemon.bind fun c => if c.pc.awaits then some (w.goto c .idle) else none

/-- Before the first daemon: every AVD was put in place by others. -/
def Initial (w : World) : Prop :=
  (∀ x d, w.avds x = some d → ∃ f : Foreign, d = f.dir) ∧ w.stored = none ∧ w.daemon = none ∧
    w.drawn = 0

end World

/-- The machine of the daemon lifetimes. -/
def avdMachine : Machine World Event where
  Init := World.Initial
  step := World.step

end Avd

end AndroidAppliance
