/-
The netclass collector vendored from the node exporter: `Collect` sends one metric per
present field of every interface under /sys/class/net, and `Describe` sends the
descriptor of each of those metrics.

The two methods are written out separately in the source: the `up` and `info`
descriptors appear in both bodies, and each body has its own seventeen conditional
branches.  The model keeps that duplication: `collectIface` and `describeIface` each
build their own `up` and `info` descriptors, and each walks its own branch table
(`collectBranches`, `describeBranches`), written in source order.  The theorem the module
exists for, `describe_collect_agree`, compares the two; it rests on the tables agreeing
(`collectBranches_fst`) and on `pushMetric` building the descriptor `pushDesc` sends
(`pushMetric_desc`).

A Go map is iterated in an unspecified order, and `Collect` and `Describe` each iterate
on their own, so each is given the order it visits the map in.  A metric carries a
`float64`; every value here is a whole number, so it is kept as the integer the double
holds, and `pushMetric` rounds its `int64` argument as Go's `float64(value)` does.
-/
import Mathlib.Data.List.Nodup
import Mathlib.Algebra.Group.Int

namespace MetrikaAgent
namespace Collector

/-- A metric descriptor as `prometheus.NewDesc` builds it here; every call passes nil
constant labels. -/
structure Desc where
  fqName : String
  help : String
  variableLabels : List String
  deriving DecidableEq, Repr

inductive ValueType where
  | counter
  | gauge
  deriving DecidableEq, Repr

/-- `prometheus.MustNewConstMetric(desc, valueType, value, labelValues...)`; the `float64`
value as the integer it holds. -/
structure Metric where
  desc : Desc
  valueType : ValueType
  value : Int
  labelValues : List String
  deriving DecidableEq, Repr

def buildFQName (ns subsystem name : String) : String :=
  if name = "" then ""
  else if ns ≠ "" ∧ subsystem ≠ "" then ns ++ "_" ++ subsystem ++ "_" ++ name
  else if ns ≠ "" then ns ++ "_" ++ name
  else if subsystem ≠ "" then subsystem ++ "_" ++ name
  else name

/-- The fields of `sysfs.NetClassIface` the collector reads; a file sysfs could not read
is a nil pointer, here `none`. -/
structure NetClassIface where
  name : String
  addrAssignType : Option Int
  address : String
  broadcast : String
  carrier : Option Int
  carrierChanges : Option Int
  carrierUpCount : Option Int
  carrierDownCount : Option Int
  devID : Option Int
  dormant : Option Int
  duplex : String
  flags : Option Int
  ifAlias : String
  ifIndex : Option Int
  ifLink : Option Int
  linkMode : Option Int
  mtu : Option Int
  nameAssignType : Option Int
  netDevGroup : Option Int
  operState : String
  speed : Option Int
  txQueueLen : Option Int
  type : Option Int
  deriving DecidableEq, Repr

/-- The optional fields whose branch pushes the field's value unchanged. -/
inductive Field where
  | addrAssignType | carrier | carrierChanges | carrierUpCount | carrierDownCount | devID
  | dormant | flags | ifIndex | ifLink | linkMode | mtu | nameAssignType | netDevGroup
  | txQueueLen | type
  deriving DecidableEq, Repr

def Field.get (i : NetClassIface) : Field → Option Int
  | .addrAssignType => i.addrAssignType
  | .carrier => i.carrier
  | .carrierChanges => i.carrierChanges
  | .carrierUpCount => i.carrierUpCount
  | .carrierDownCount => i.carrierDownCount
  | .devID => i.devID
  | .dormant => i.dormant
  | .flags => i.flags
  | .ifIndex => i.ifIndex
  | .ifLink => i.ifLink
  | .linkMode => i.linkMode
  | .mtu => i.mtu
  | .nameAssignType => i.nameAssignType
  | .netDevGroup => i.netDevGroup
  | .txQueueLen => i.txQueueLen
  | .type => i.type

/-- One of the seventeen conditional branches that follow `up` and `info`. -/
inductive Branch where
  | field (f : Field) (name : String)
  | speed
  deriving DecidableEq, Repr

/-- The branches of `Collect`, in source order, with the value type each passes. -/
def collectBranches : List (Branch × ValueType) :=
  [(.field .addrAssignType "address_assign_type", .gauge),
   (.field .carrier "carrier", .gauge),
   (.field .carrierChanges "carrier_changes_total", .counter),
   (.field .carrierUpCount "carrier_up_changes_total", .counter),
   (.field .carrierDownCount "carrier_down_changes_total", .counter),
   (.field .devID "device_id", .gauge),
   (.field .dormant "dormant", .gauge),
   (.field .flags "flags", .gauge),
   (.field .ifIndex "iface_id", .gauge),
   (.field .ifLink "iface_link", .gauge),
   (.field .linkMode "iface_link_mode", .gauge),
   (.field .mtu "mtu_bytes", .gauge),
   (.field .nameAssignType "name_assign_type", .gauge),
   (.field .netDevGroup "net_dev_group", .gauge),
   (.speed, .gauge),
   (.field .txQueueLen "transmit_queue_length", .gauge),
   (.field .type "protocol_type", .gauge)]

def describeBranches : List Branch :=
  [.field .addrAssignType "address_assign_type",
   .field .carrier "carrier",
   .field .carrierChanges "carrier_changes_total",
   .field .carrierUpCount "carrier_up_changes_total",
   .field .carrierDownCount "carrier_down_changes_total",
   .field .devID "device_id",
   .field .dormant "dormant",
   .field .flags "flags",
   .field .ifIndex "iface_id",
   .field .ifLink "iface_link",
   .field .linkMode "iface_link_mode",
   .field .mtu "mtu_bytes",
   .field .nameAssignType "name_assign_type",
   .field .netDevGroup "net_dev_group",
   .speed,
   .field .txQueueLen "transmit_queue_length",
   .field .type "protocol_type"]

theorem collectBranches_fst : collectBranches.map Prod.fst = describeBranches := rfl

/-- Go's `int64` arithmetic: a result wrapped into [-2^63, 2^63). -/
def wrap64 (x : Int) : Int := x.bmod (2 ^ 64)

/-- `int64(*ifaceInfo.Speed * 1000 * 1000 / 8)`: two wrapping products, then a division
that truncates toward zero. -/
def speedBytes (speed : Int) : Int := (wrap64 (wrap64 (speed * 1000) * 1000)).tdiv 8

/-- `n / d` rounded to the nearest integer, ties to even. -/
def rne (n d : Nat) : Nat :=
  if d < 2 * (n % d) ∨ (2 * (n % d) = d ∧ n / d % 2 = 1) then n / d + 1 else n / d

/-- Go's `float64(x)` for an integer `x`, as the integer the double holds: a double keeps
53 significant bits, so a magnitude of `2 ^ 53` or more is rounded to nearest, ties to
even, at the scale of its last kept bit. -/
def float64OfInt (x : Int) : Int :=
  let n := x.natAbs
  let e := n.log2 + 1 - 53
  let r := if n < 2 ^ 53 then n else rne n (2 ^ e) * 2 ^ e
  if x < 0 then -(r : Int) else r

/- At a sysfs speed of 10^12 + 1 Mbit/s, `speed_bytes` is the `int64` 125000000000125000,
a tie between two doubles, sent as the even one. -/
example : float64OfInt 125000000000125000 = 125000000000124992 := by
  have hlog : Nat.log2 125000000000125000 = 56 :=
    Nat.le_antisymm (Nat.lt_succ_iff.1 ((Nat.log2_lt (by decide)).2 (by decide)))
      ((Nat.le_log2 (by decide)).2 (by decide))
  have hrne : rne 125000000000125000 16 = 7812500000007812 := by decide
  have habs : (125000000000125000 : Int).natAbs = 125000000000125000 := rfl
  simp only [float64OfInt, habs, hlog]
  rw [if_neg (by decide), if_neg (by decide)]
  show ((rne 125000000000125000 16 * 16 : Nat) : Int) = _
  rw [hrne]
  rfl

/-- The `Speed` guard: `*ifaceInfo.Speed >= 0 || !netclassInvalidSpeed`. -/
def speedShown (netclassInvalidSpeed : Bool) (speed : Int) : Prop :=
  0 ≤ speed ∨ netclassInvalidSpeed = false

instance (netclassInvalidSpeed : Bool) (speed : Int) :
    Decidable (speedShown netclassInvalidSpeed speed) :=
  inferInstanceAs (Decidable (_ ∨ _))

/-- The default of `collector.netclass.ignore-invalid-speed`. -/
def netclassInvalidSpeed : Bool := false

/-- `regexp.MustCompile("^$")`, the default of `collector.netclass.ignored-devices`, as a
matcher: it matches the empty name only. -/
def netclassIgnoredDevices (device : String) : Bool := device == ""

section Methods

/- `ns` is the package's `namespace` constant, and `invalidSpeed` the value of
`netclassInvalidSpeed` when the methods run. -/
variable (ns : String) (invalidSpeed : Bool)

def pushDesc (subsystem name : String) : Desc :=
  ⟨buildFQName ns subsystem name, name ++ " value of /sys/class/net/<iface>.", ["device"]⟩

def pushMetric (subsystem name : String) (value : Int) (ifaceName : String)
    (valueType : ValueType) : Metric :=
  ⟨⟨buildFQName ns subsystem name, name ++ " value of /sys/class/net/<iface>.", ["device"]⟩,
    valueType, float64OfInt value, [ifaceName]⟩

@[simp] theorem pushMetric_desc (subsystem name : String) (value : Int) (ifaceName : String)
    (valueType : ValueType) :
    (pushMetric ns subsystem name value ifaceName valueType).desc = pushDesc ns subsystem name :=
  rfl

def collectBranch (subsystem : String) (i : NetClassIface) : Branch × ValueType → List Metric
  | (.field f name, vt) =>
    match f.get i with
    | some v => [pushMetric ns subsystem name v i.name vt]
    | none => []
  | (.speed, vt) =>
    match i.speed with
    | some s =>
      if speedShown invalidSpeed s then [pushMetric ns subsystem "speed_bytes" (speedBytes s) i.name vt]
      else []
    | none => []

def describeBranch (subsystem : String) (i : NetClassIface) : Branch → List Desc
  | .field f name =>
    match f.get i with
    | some _ => [pushDesc ns subsystem name]
    | none => []
  | .speed =>
    match i.speed with
    | some s => if speedShown invalidSpeed s then [pushDesc ns subsystem "speed_bytes"] else []
    | none => []

/-- One iteration of `Collect`'s loop: the metrics it sends for `ifaceInfo`, in order. -/
def collectIface (subsystem : String) (i : NetClassIface) : List Metric :=
  let upDesc : Desc := ⟨buildFQName ns subsystem "up",
    "Value is 1 if operstate is 'up', 0 otherwise.", ["device"]⟩
  let upValue : Int := if i.operState = "up" then 1 else 0
  let infoDesc : Desc := ⟨buildFQName ns subsystem "info",
    "Non-numeric data from /sys/class/net/<iface>, value is always 1.",
    ["device", "address", "broadcast", "duplex", "operstate", "ifalias"]⟩
  ⟨upDesc, .gauge, upValue, [i.name]⟩ ::
    ⟨infoDesc, .gauge, 1, [i.name, i.address, i.broadcast, i.duplex, i.operState, i.ifAlias]⟩ ::
    collectBranches.flatMap (collectBranch ns invalidSpeed subsystem i)

def describeIface (subsystem : String) (i : NetClassIface) : List Desc :=
  let upDesc : Desc := ⟨buildFQName ns subsystem "up",
    "Value is 1 if operstate is 'up', 0 otherwise.", ["device"]⟩
  let infoDesc : Desc := ⟨buildFQName ns subsystem "info",
    "Non-numeric data from /sys/class/net/<iface>, value is always 1.",
    ["device", "address", "broadcast", "duplex", "operstate", "ifalias"]⟩
  upDesc :: infoDesc :: describeBranches.flatMap (describeBranch ns invalidSpeed subsystem i)

end Methods

/-! ## Reading sysfs -/

/-- An error from sysfs, by what `errors.Is` finds in it. -/
inductive FsError where
  | notExist (msg : String)
  | permission (msg : String)
  | other (msg : String)
  deriving DecidableEq, Repr

def FsError.error : FsError → String
  | .notExist msg | .permission msg | .other msg => msg

/-- The sysfs reads the collector makes: the device names under /sys/class/net, and the
class of one device. -/
structure SysFS where
  netClassDevices : Except FsError (List String)
  netClassByIface : String → Except FsError NetClassIface

structure NetClassCollector where
  fs : SysFS
  subsystem : String
  ignoredDevicesPattern : String → Bool

/-- `NewNetClassCollector()`, given what `sysfs.NewFS(sysPath)` returned. -/
def newNetClassCollector (newFS : Except FsError SysFS) : Except String NetClassCollector :=
  match newFS with
  | .error err => .error ("failed to open sysfs: " ++ err.error)
  | .ok fs => .ok ⟨fs, "network", netclassIgnoredDevices⟩

/-- `sysfs.NetClass`, a map from device name to class, as its list of entries. -/
abbrev NetClass := List (String × NetClassIface)

def NetClass.insert (m : NetClass) (device : String) (iface : NetClassIface) : NetClass :=
  m.filter (fun e => e.1 ≠ device) ++ [(device, iface)]

namespace NetClassCollector

/-- The loop of `getNetClassInfo` over the device names, from the map built so far. -/
def readDevices (c : NetClassCollector) : List String → NetClass → NetClass × Option FsError
  | [], netClass => (netClass, none)
  | device :: rest, netClass =>
    if c.ignoredDevicesPattern device then c.readDevices rest netClass
    else
      match c.fs.netClassByIface device with
      | .error err => (netClass, some err)
      | .ok iface => c.readDevices rest (netClass.insert device iface)

def getNetClassInfo (c : NetClassCollector) : NetClass × Option FsError :=
  match c.fs.netClassDevices with
  | .error err => ([], some err)
  | .ok netDevices => c.readDevices netDevices []

end NetClassCollector

inductive LogLine where
  | debugw (msg err : String)
  | errNoData
  | error (msg : String)
  deriving DecidableEq, Repr

/-- What `Collect` and `Describe` log when `getNetClassInfo` fails, before returning. -/
def logGetError : FsError → List LogLine
  | .other msg => [.error ("could not get net class info: " ++ msg)]
  | err => [.debugw "Could not read netclass file" err.error, .errNoData]

namespace NetClassCollector

variable (ns : String) (invalidSpeed : Bool)

/-- `Collect(ch)`: the metrics it sends and the lines it logs, visiting the map in the
order `iter` gives. -/
def collect (c : NetClassCollector) (iter : NetClass → List NetClassIface) :
    List Metric × List LogLine :=
  match c.getNetClassInfo with
  | (_, some err) => ([], logGetError err)
  | (netClass, none) => ((iter netClass).flatMap (collectIface ns invalidSpeed c.subsystem), [])

def describe (c : NetClassCollector) (iter : NetClass → List NetClassIface) :
    List Desc × List LogLine :=
  match c.getNetClassInfo with
  | (_, some err) => ([], logGetError err)
  | (netClass, none) => ((iter netClass).flatMap (describeIface ns invalidSpeed c.subsystem), [])

end NetClassCollector

/-! ## Describe and Collect agree

Branch by branch, a branch of `Collect` sends a metric exactly when the branch of
`Describe` at the same place sends a descriptor, and `pushMetric`'s descriptor is
`pushDesc`'s; the `up` and `info` descriptors are written the same in both bodies.  So the
descriptors of one interface's metrics are that interface's descriptors, in order, and over
the whole map they agree up to the two iteration orders. -/

section Agreement

variable (ns : String) (invalidSpeed : Bool) (subsystem : String) (i : NetClassIface)

theorem collectBranch_desc (b : Branch × ValueType) :
    (collectBranch ns invalidSpeed subsystem i b).map Metric.desc =
      describeBranch ns invalidSpeed subsystem i b.1 := by
  obtain ⟨f | _, vt⟩ := b
  · cases h : f.get i <;> simp [collectBranch, describeBranch, h]
  · cases h : i.speed <;> simp only [collectBranch, describeBranch, h, List.map_nil]
    split <;> rfl

theorem collectIface_desc :
    (collectIface ns invalidSpeed subsystem i).map Metric.desc =
      describeIface ns invalidSpeed subsystem i := by
  simp only [collectIface, describeIface, List.map_cons, List.map_flatMap, collectBranch_desc,
    ← collectBranches_fst, List.flatMap_map]

theorem describe_collect_agree (c : NetClassCollector)
    (iter₁ iter₂ : NetClass → List NetClassIface)
    (h₁ : ∀ m, (iter₁ m).Perm (m.map Prod.snd)) (h₂ : ∀ m, (iter₂ m).Perm (m.map Prod.snd)) :
    ((c.collect ns invalidSpeed iter₁).1.map Metric.desc).Perm (c.describe ns invalidSpeed iter₂).1 ∧
      (c.getNetClassInfo.2.isSome →
        (c.collect ns invalidSpeed iter₁).1 = [] ∧ (c.describe ns invalidSpeed iter₂).1 = []) := by
  unfold NetClassCollector.collect NetClassCollector.describe
  rcases c.getNetClassInfo with ⟨m, _ | err⟩
  · simp only [List.map_flatMap, collectIface_desc, Option.isSome_none]
    exact ⟨((h₁ m).trans (h₂ m).symm).flatMap_right _, nofun⟩
  · simp

/-- The loopback interface as sysfs reads it on a typical host. -/
def loopback : NetClassIface :=
  { name := "lo", addrAssignType := none, address := "00:00:00:00:00:00",
    broadcast := "00:00:00:00:00:00", carrier := some 1, carrierChanges := some 0,
    carrierUpCount := some 0, carrierDownCount := some 0, devID := some 0,
    dormant := some 0, duplex := "", flags := some 9, ifAlias := "", ifIndex := some 1,
    ifLink := some 1, linkMode := some 0, mtu := some 65536, nameAssignType := none,
    netDevGroup := some 0, operState := "unknown", speed := none, txQueueLen := some 1000,
    type := some 772 }

theorem describe_collect_agree_loopback :
    let c : NetClassCollector :=
      ⟨⟨.ok ["lo"], fun _ => .ok loopback⟩, "network", netclassIgnoredDevices⟩
    let iter₁ : NetClass → List NetClassIface := fun m => m.map Prod.snd
    let iter₂ : NetClass → List NetClassIface := fun m => (m.map Prod.snd).reverse
    (∀ m, (iter₁ m).Perm (m.map Prod.snd)) ∧ (∀ m, (iter₂ m).Perm (m.map Prod.snd)) ∧
      ((c.collect "node" netclassInvalidSpeed iter₁).1.map Metric.desc).Perm
        (c.describe "node" netclassInvalidSpeed iter₂).1 ∧
      (c.getNetClassInfo.2.isSome → (c.collect "node" netclassInvalidSpeed iter₁).1 = [] ∧
        (c.describe "node" netclassInvalidSpeed iter₂).1 = []) := by
  intro c iter₁ iter₂
  exact ⟨fun _ => .refl _, fun _ => List.reverse_perm _,
    describe_collect_agree "node" netclassInvalidSpeed c iter₁ iter₂ (fun _ => .refl _)
      (fun _ => List.reverse_perm _)⟩

end Agreement

/-! ## What Collect sends -/

section Sends

variable (ns : String) (invalidSpeed : Bool)

/-- Every metric a branch sends is built by `pushMetric`. -/
theorem mem_collectBranch {subsystem : String} {i : NetClassIface} {b : Branch × ValueType}
    {x : Metric} (h : x ∈ collectBranch ns invalidSpeed subsystem i b) :
    ∃ name v vt, x = pushMetric ns subsystem name v i.name vt := by
  obtain ⟨f | _, vt⟩ := b
  · cases hf : f.get i <;> simp only [collectBranch, hf, List.mem_singleton, List.not_mem_nil] at h
    exact ⟨_, _, _, h⟩
  · cases hs : i.speed <;> simp only [collectBranch, hs, List.not_mem_nil] at h
    split at h
    · exact ⟨_, _, _, List.mem_singleton.mp h⟩
    · cases h

end Sends

namespace NetClassCollector

/-- A map whose keys are distinct, each bound to the class sysfs reads for it. -/
def Entries (c : NetClassCollector) (m : NetClass) : Prop :=
  (m.map Prod.fst).Nodup ∧ ∀ e ∈ m, c.fs.netClassByIface e.1 = .ok e.2

theorem mem_keys_insert {m : NetClass} {device d : String} {iface : NetClassIface} :
    d ∈ (m.insert device iface).map Prod.fst ↔ d ∈ m.map Prod.fst ∨ d = device := by
  by_cases hd : d = device <;> simp [NetClass.insert, hd]

theorem Entries.insert {c : NetClassCollector} {m : NetClass} {device : String}
    {iface : NetClassIface} (hm : c.Entries m) (hread : c.fs.netClassByIface device = .ok iface) :
    c.Entries (m.insert device iface) := by
  refine ⟨?_, ?_⟩
  · rw [NetClass.insert, List.map_append, List.nodup_append]
    refine ⟨hm.1.sublist ((List.filter_sublist _).map _), List.nodup_singleton _, ?_⟩
    simp
  · simp only [NetClass.insert, List.mem_append, List.mem_filter, List.mem_singleton]
    rintro e (⟨he, -⟩ | rfl)
    exacts [hm.2 e he, hread]

theorem readDevices_ok {c : NetClassCollector} {devices : List String} {m₀ m : NetClass}
    (h : c.readDevices devices m₀ = (m, none)) (h₀ : c.Entries m₀) :
    c.Entries m ∧ ∀ d, d ∈ m.map Prod.fst ↔
      d ∈ m₀.map Prod.fst ∨ (d ∈ devices ∧ c.ignoredDevicesPattern d = false) := by
  induction devices generalizing m₀ with
  | nil =>
    cases h
    simp [h₀]
  | cons device rest ih =>
    simp only [readDevices] at h
    split at h
    · case isTrue ignored =>
      refine ⟨(ih h h₀).1, fun d => ?_⟩
      rw [(ih h h₀).2]
      by_cases hd : d = device <;> simp [hd, ignored]
    · case isFalse kept =>
      split at h
      · cases h
      · case h_2 iface hread =>
        obtain ⟨hm, hkeys⟩ := ih h (h₀.insert hread)
        refine ⟨hm, fun d => ?_⟩
        rw [hkeys, mem_keys_insert]
        by_cases hd : d = device <;> simp [hd, kept]

theorem readDevices_error_none {c : NetClassCollector} {devices : List String} {m₀ : NetClass} :
    (c.readDevices devices m₀).2 = none ↔
      ∀ d ∈ devices, c.ignoredDevicesPattern d = false → ∃ iface, c.fs.netClassByIface d = .ok iface := by
  induction devices generalizing m₀ with
  | nil => simp [readDevices]
  | cons device rest ih =>
    simp only [readDevices, List.mem_cons, forall_eq_or_imp]
    split
    · case isTrue ignored => simp [ih, ignored]
    · case isFalse kept =>
      split
      · case h_1 err hread => simp [kept, hread]
      · case h_2 iface hread => simp [ih, kept, hread]

/-- `getNetClassInfo` fails exactly when listing the devices fails or reading a device the
pattern does not match fails; when it succeeds, its map has one entry for each listed
device the pattern does not match, bound to that device's class. -/
theorem getNetClassInfo_spec (c : NetClassCollector) :
    (c.getNetClassInfo.2 = none ↔ ∃ devices, c.fs.netClassDevices = .ok devices ∧
      ∀ d ∈ devices, c.ignoredDevicesPattern d = false →
        ∃ iface, c.fs.netClassByIface d = .ok iface) ∧
    ∀ m, c.getNetClassInfo = (m, none) → ∃ devices, c.fs.netClassDevices = .ok devices ∧
      c.Entries m ∧ ∀ d, d ∈ m.map Prod.fst ↔ d ∈ devices ∧ c.ignoredDevicesPattern d = false := by
  have empty : c.Entries [] := by simp [Entries]
  unfold getNetClassInfo
  cases hlist : c.fs.netClassDevices with
  | error err => simp
  | ok devices =>
    refine ⟨by simp [readDevices_error_none], fun m h => ⟨devices, rfl, ?_⟩⟩
    obtain ⟨hm, hkeys⟩ := readDevices_ok h empty
    exact ⟨hm, fun d => by simp [hkeys]⟩

end NetClassCollector

@[simp] theorem netclassIgnoredDevices_eq_false (d : String) :
    netclassIgnoredDevices d = false ↔ d ≠ "" := by
  simp [netclassIgnoredDevices]

end Collector
end MetrikaAgent
