/-
What a Prometheus registry checks of the netclass collector, and why it passes.

`Registry.Register` reads `Describe` and refuses a collector that sends two descriptors with
one fully-qualified name but different help texts or label names; `Gather` reads `Collect`
and refuses two metrics with the same name and label values.  Each descriptor here is made
from its metric name alone (`up`, `info`, or a branch's name through `pushDesc`), the
nineteen names are distinct and non-empty, and `BuildFQName` keeps non-empty names apart.
Every metric carries its interface's name as its first label value, and sysfs names each
interface by the device it read it for, so two interfaces of one map never share a series.
-/
import MetrikaAgent.Collector.NetClass

namespace MetrikaAgent
namespace Collector

theorem string_append_left_cancel {s a b : String} (h : s ++ a = s ++ b) : a = b :=
  String.ext (by simpa using congrArg String.data h)

/-- `BuildFQName` with a fixed namespace and subsystem keeps non-empty names apart. -/
theorem buildFQName_inj {ns subsystem a b : String} (ha : a ≠ "") (hb : b ≠ "")
    (h : buildFQName ns subsystem a = buildFQName ns subsystem b) : a = b := by
  simp only [buildFQName, ha, hb, ↓reduceIte] at h
  split_ifs at h
  all_goals first | exact h | exact string_append_left_cancel h

def Branch.name : Branch → String
  | .field _ name => name
  | .speed => "speed_bytes"

/-- Every metric name the collector uses, in the order of the source. -/
def metricNames : List String := "up" :: "info" :: describeBranches.map Branch.name

theorem metricNames_nodup : metricNames.Nodup := by decide

theorem metricNames_ne_empty : ∀ n ∈ metricNames, n ≠ "" := by decide

theorem flatMap_sublist_flatMap {α β : Type} {l : List α} {f g : α → List β}
    (h : ∀ a ∈ l, (f a).Sublist (g a)) : (l.flatMap f).Sublist (l.flatMap g) := by
  induction l with
  | nil => exact .slnil
  | cons a l ih =>
    simp only [List.flatMap_cons]
    exact (h a (List.mem_cons_self _ _)).append (ih fun b hb => h b (List.mem_cons_of_mem _ hb))

section Names

variable (ns : String) (invalidSpeed : Bool) (subsystem : String)

def descOf (name : String) : Desc :=
  if name = "up" then
    ⟨buildFQName ns subsystem "up", "Value is 1 if operstate is 'up', 0 otherwise.", ["device"]⟩
  else if name = "info" then
    ⟨buildFQName ns subsystem "info",
      "Non-numeric data from /sys/class/net/<iface>, value is always 1.",
      ["device", "address", "broadcast", "duplex", "operstate", "ifalias"]⟩
  else pushDesc ns subsystem name

@[simp] theorem descOf_fqName (name : String) :
    (descOf ns subsystem name).fqName = buildFQName ns subsystem name := by
  unfold descOf
  split_ifs with hup hinfo
  · rw [hup]
  · rw [hinfo]
  · rfl

theorem describeBranches_name : ∀ b ∈ describeBranches, b.name ≠ "up" ∧ b.name ≠ "info" := by
  decide

theorem descOf_branch {b : Branch} (hb : b ∈ describeBranches) :
    descOf ns subsystem b.name = pushDesc ns subsystem b.name := by
  obtain ⟨hup, hinfo⟩ := describeBranches_name b hb
  simp [descOf, hup, hinfo]

theorem describeBranch_sublist (i : NetClassIface) (b : Branch) :
    (describeBranch ns invalidSpeed subsystem i b).Sublist [pushDesc ns subsystem b.name] := by
  cases b with
  | field f name => cases h : f.get i <;> simp [describeBranch, Branch.name, h]
  | speed =>
    cases h : i.speed <;> simp only [describeBranch, Branch.name, h, List.nil_sublist]
    split_ifs <;> simp

/-- Every descriptor `Describe` sends for an interface is the descriptor of one of the
metric names. -/
theorem mem_describeIface {i : NetClassIface} {d : Desc}
    (hd : d ∈ describeIface ns invalidSpeed subsystem i) :
    ∃ n ∈ metricNames, d = descOf ns subsystem n := by
  simp only [describeIface, List.mem_cons, List.mem_flatMap] at hd
  rcases hd with rfl | rfl | ⟨b, hb, hdb⟩
  · exact ⟨"up", by simp [metricNames], by simp [descOf]⟩
  · exact ⟨"info", by simp [metricNames], by simp [descOf]⟩
  · refine ⟨b.name, List.mem_cons_of_mem _ (List.mem_cons_of_mem _ (List.mem_map_of_mem _ hb)), ?_⟩
    rw [descOf_branch ns subsystem hb]
    exact List.mem_singleton.1 ((describeBranch_sublist ns invalidSpeed subsystem i b).subset hdb)

/-- The names of the descriptors `Describe` sends for an interface are names of distinct
metrics, in the order of `metricNames`. -/
theorem describeIface_fqName_sublist (i : NetClassIface) :
    ((describeIface ns invalidSpeed subsystem i).map Desc.fqName).Sublist
      (metricNames.map (buildFQName ns subsystem)) := by
  simp only [describeIface, metricNames, List.map_cons, List.map_map, List.map_flatMap]
  refine .cons₂ _ (.cons₂ _ ?_)
  rw [List.map_eq_flatMap]
  exact flatMap_sublist_flatMap fun b _ => (describeBranch_sublist ns invalidSpeed subsystem i b).map _

theorem metricNames_fqName_nodup : (metricNames.map (buildFQName ns subsystem)).Nodup :=
  metricNames_nodup.map_on fun _ ha _ hb h =>
    buildFQName_inj (metricNames_ne_empty _ ha) (metricNames_ne_empty _ hb) h

end Names

/-! ## Register: one descriptor per name -/

section Register

variable (ns : String) (invalidSpeed : Bool)

/-- Two descriptors `Describe` sends under one fully-qualified name are the same descriptor,
with the same help text and label names: the consistency `Registry.Register` checks. -/
theorem describe_consistent (c : NetClassCollector) (iter : NetClass → List NetClassIface) :
    ∀ d₁ ∈ (c.describe ns invalidSpeed iter).1, ∀ d₂ ∈ (c.describe ns invalidSpeed iter).1,
      d₁.fqName = d₂.fqName → d₁ = d₂ := by
  unfold NetClassCollector.describe
  rcases c.getNetClassInfo with ⟨m, _ | err⟩
  · simp only [List.mem_flatMap]
    rintro d₁ ⟨i₁, -, h₁⟩ d₂ ⟨i₂, -, h₂⟩ hfq
    obtain ⟨n₁, hn₁, rfl⟩ := mem_describeIface ns invalidSpeed c.subsystem h₁
    obtain ⟨n₂, hn₂, rfl⟩ := mem_describeIface ns invalidSpeed c.subsystem h₂
    rw [descOf_fqName, descOf_fqName] at hfq
    rw [buildFQName_inj (metricNames_ne_empty _ hn₁) (metricNames_ne_empty _ hn₂) hfq]
  · simp

/-- Two interfaces, sixteen descriptors each: the `up` descriptor sent for the first and the
one sent for the second share a name, and are one descriptor. -/
theorem describe_consistent_two_devices :
    let c : NetClassCollector :=
      ⟨⟨.ok ["lo", "eth0"], fun d => .ok { loopback with name := d }⟩, "network",
        netclassIgnoredDevices⟩
    let out := (c.describe "node" netclassInvalidSpeed fun m => m.map Prod.snd).1
    let up : Desc :=
      ⟨"node_network_up", "Value is 1 if operstate is 'up', 0 otherwise.", ["device"]⟩
    out[0]? = some up ∧ out[16]? = some up ∧ up.fqName = up.fqName ∧ up = up := by
  intro c out up
  have h₀ : out[0]? = some up := rfl
  have h₁₆ : out[16]? = some up := rfl
  exact ⟨h₀, h₁₆, rfl, describe_consistent "node" netclassInvalidSpeed c _ up
    (List.getElem?_mem h₀) up (List.getElem?_mem h₁₆) rfl⟩

end Register

/-! ## Gather: one metric per series

Within one interface the metric names are distinct; across interfaces the first label
value, the interface's name, differs, because the map has one entry per device and sysfs
names the class it reads after the device. -/

section Gather

variable (ns : String) (invalidSpeed : Bool)

theorem getNetClassInfo_entries {c : NetClassCollector} {m : NetClass}
    (h : c.getNetClassInfo = (m, none)) : c.Entries m := by
  unfold NetClassCollector.getNetClassInfo at h
  split at h
  · cases h
  · exact (NetClassCollector.readDevices_ok h (by simp [NetClassCollector.Entries])).1

theorem collectIface_label_head {subsystem : String} {i : NetClassIface} {x : Metric}
    (hx : x ∈ collectIface ns invalidSpeed subsystem i) : x.labelValues.head? = some i.name := by
  simp only [collectIface, List.mem_cons, List.mem_flatMap] at hx
  rcases hx with rfl | rfl | ⟨b, -, hb⟩
  · rfl
  · rfl
  · obtain ⟨name, v, vt, rfl⟩ := mem_collectBranch ns invalidSpeed hb
    rfl

theorem collectIface_series_nodup (subsystem : String) (i : NetClassIface) :
    ((collectIface ns invalidSpeed subsystem i).map fun x => (x.desc.fqName, x.labelValues)).Nodup := by
  refine List.Nodup.of_map Prod.fst ?_
  have hfq : ((collectIface ns invalidSpeed subsystem i).map fun x => (x.desc.fqName, x.labelValues)).map
      Prod.fst = (describeIface ns invalidSpeed subsystem i).map Desc.fqName := by
    rw [← collectIface_desc, List.map_map, List.map_map]
    rfl
  rw [hfq]
  exact (describeIface_fqName_sublist ns invalidSpeed subsystem i).nodup
    (metricNames_fqName_nodup ns subsystem)

/-- When sysfs names the class of each device after the device, as procfs does, `Collect`
never sends two metrics with the same name and label values, whatever the interfaces and
the order the map is visited in: the check `Gather` makes on every scrape. -/
theorem collect_series_nodup (c : NetClassCollector) (iter : NetClass → List NetClassIface)
    (hiter : ∀ m, (iter m).Perm (m.map Prod.snd))
    (hname : ∀ d iface, c.fs.netClassByIface d = .ok iface → iface.name = d) :
    ((c.collect ns invalidSpeed iter).1.map fun x => (x.desc.fqName, x.labelValues)).Nodup := by
  unfold NetClassCollector.collect
  rcases hget : c.getNetClassInfo with ⟨m, _ | err⟩
  · have hm := getNetClassInfo_entries hget
    have hkeys : (m.map Prod.snd).map NetClassIface.name = m.map Prod.fst := by
      rw [List.map_map]
      exact List.map_congr_left fun e he => hname e.1 e.2 (hm.2 e he)
    have hnames : ((iter m).map NetClassIface.name).Nodup :=
      (hkeys ▸ hm.1).perm ((hiter m).map _).symm
    simp only [List.map_flatMap, List.nodup_flatMap]
    refine ⟨fun i _ => collectIface_series_nodup ns invalidSpeed c.subsystem i,
      (List.pairwise_map.1 hnames).imp fun hne => ?_⟩
    simp only [List.Disjoint, List.mem_map]
    rintro _ ⟨x, hx, rfl⟩ ⟨y, hy, hxy⟩
    have := (collectIface_label_head ns invalidSpeed hx).symm.trans
      ((congrArg (fun r => r.2.head?) hxy).symm.trans (collectIface_label_head ns invalidSpeed hy))
    exact hne (Option.some.inj this)
  · exact List.nodup_nil

theorem collect_series_nodup_two_devices :
    let c : NetClassCollector :=
      ⟨⟨.ok ["lo", "eth0"], fun d => .ok { loopback with name := d }⟩, "network",
        netclassIgnoredDevices⟩
    (∀ m : NetClass, (m.map Prod.snd).Perm (m.map Prod.snd)) ∧
      (∀ d iface, c.fs.netClassByIface d = .ok iface → iface.name = d) ∧
      ((c.collect "node" netclassInvalidSpeed fun m => m.map Prod.snd).1.map
        fun x => (x.desc.fqName, x.labelValues)).Nodup := by
  intro c
  have hname : ∀ d iface, c.fs.netClassByIface d = .ok iface → iface.name = d := by
    rintro d iface ⟨⟩
    rfl
  exact ⟨fun _ => .refl _, hname,
    collect_series_nodup "node" netclassInvalidSpeed c _ (fun _ => .refl _) hname⟩

end Gather

end Collector
end MetrikaAgent
