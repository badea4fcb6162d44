import Mathlib
import SignalBroker.Proofs.Json.Depth
import SignalBroker.Proofs.Json.Reparsing
import SignalBroker.Service.Config

namespace SignalBroker

namespace Json

theorem Fields.get_of_finds {α : Type} {fields : Fields} {name : String}
    {read : Reading → Except Error α} {a : α} {j : Json} (h : Finds read a j)
    (hfield : ∃ r, fields.lookup name = some r ∧ r.Tells j) : fields.get name read = .ok a := by
  obtain ⟨r, hr, htells⟩ := hfield
  rw [Fields.get, hr]
  exact h r htells

theorem Fields.getD_of_finds {α : Type} {fields : Fields} {name : String}
    {read : Reading → Except Error α} {a : α} {j : Json} (default : α)
    (h : Finds read a j) (hfield : ∃ r, fields.lookup name = some r ∧ r.Tells j) :
    fields.getD name read default = .ok a := by
  obtain ⟨r, hr, htells⟩ := hfield
  rw [Fields.getD, hr]
  exact h r htells

section Tables

variable {α : Type} {t : Table String α} {f : α → Json}

theorem sorted_ofTable (h : ∀ row ∈ t.rows, (f row.2).Sorted) : (ofTable t f).Sorted := by
  refine ⟨List.pairwise_map.mpr t.ascending, sortedMembers_iff.mpr ?_⟩
  exact List.forall_mem_map.mpr h

theorem legible_ofTable (h : ∀ row ∈ t.rows, (f row.2).Legible) : (ofTable t f).Legible :=
  legibleMembers_iff.mpr (List.forall_mem_map.mpr h)

theorem depth_ofTable_le {n : Nat} (h : ∀ row ∈ t.rows, (f row.2).depth ≤ n) :
    (ofTable t f).depth ≤ n + 1 :=
  Nat.succ_le_succ (depthMembers_le_iff.mpr (List.forall_mem_map.mpr h))

end Tables

theorem legible_ofNat (n : Nat) : (ofNat n).Legible :=
  legibleNumber_natural _

end Json

open Json

namespace AdapterSpec

variable {spec : AdapterSpec} {origin : Origin}

theorem finds (h : spec.config.Sorted) : Finds (read origin) spec spec.toJson := by
  intro r hr
  have hconfig := finds_toJson h
  have hname := finds_string spec.name
  have hkind := finds_string spec.kind
  obtain ⟨fields, hread, hfields⟩ := record.fieldsOf_of_tells origin hr (by simp)
    (by
      simp only [List.forall_mem_cons]
      exact ⟨fun r => Record.accepts_of_finds rfl hconfig, fun r => Record.accepts_of_finds rfl hname,
        fun r => Record.accepts_of_finds rfl hkind, nofun⟩)
    (by simp [record, Field.needed, Field.optional])
  have h₁ := Fields.get_of_finds hkind (hfields "type" _ (by simp) rfl)
  have h₂ := Fields.get_of_finds hname (hfields "name" _ (by simp) rfl)
  have h₃ := Fields.getD_of_finds .null hconfig (hfields "config" _ (by simp) rfl)
  rw [read, hread]
  exact bind_eq_ok_iff.mpr ⟨_, rfl, bind_eq_ok_iff.mpr ⟨_, h₁, bind_eq_ok_iff.mpr ⟨_, h₂,
    bind_eq_ok_iff.mpr ⟨_, h₃, rfl⟩⟩⟩⟩

theorem settings_of_read {r : Reading} (h : read origin r = .ok spec) :
    spec.config.Sorted ∧ (spec.config = .null ∨ spec.config.depth < r.depth) := by
  obtain ⟨fields, hfields, h⟩ := bind_eq_ok_iff.mp h
  obtain ⟨kind, -, h⟩ := bind_eq_ok_iff.mp h
  obtain ⟨name, -, h⟩ := bind_eq_ok_iff.mp h
  obtain ⟨config, hconfig, h⟩ := bind_eq_ok_iff.mp h
  cases h
  obtain rfl | ⟨row, hrow, hread⟩ := Fields.exists_of_getD hconfig
  · exact ⟨trivial, .inl rfl⟩
  · exact ⟨Reading.sorted_of_toJson hread,
      .inr ((Reading.depth_le_of_toJson hread).trans_lt (Record.depth_lt_of_fieldsOf hfields row hrow))⟩

theorem legible_toJson (h : spec.config.Legible) : spec.toJson.Legible :=
  ⟨h, trivial, trivial, trivial⟩

theorem depth_toJson (spec : AdapterSpec) : spec.toJson.depth = spec.config.depth + 1 := by
  simp [toJson, Json.depth, Json.depthMembers]

end AdapterSpec

namespace ServerSettings

variable {s : ServerSettings} {origin : Origin}

structure Bounded (s : ServerSettings) : Prop where
  port : s.listenPort ≤ 0xffff
  capacity : s.outboundCapacity ≤ 0xffffffffffffffff

theorem bounded_default : default.Bounded :=
  ⟨by decide, by decide⟩

theorem bounded_of_read {r : Reading} (h : read origin r = .ok s) : s.Bounded := by
  obtain ⟨fields, -, h⟩ := bind_eq_ok_iff.mp h
  obtain ⟨host, -, h⟩ := bind_eq_ok_iff.mp h
  obtain ⟨port, hport, h⟩ := bind_eq_ok_iff.mp h
  obtain ⟨path, -, h⟩ := bind_eq_ok_iff.mp h
  obtain ⟨capacity, hcapacity, h⟩ := bind_eq_ok_iff.mp h
  cases h
  constructor
  · obtain rfl | ⟨row, -, hread⟩ := Fields.exists_of_getD hport
    · exact bounded_default.port
    · exact le_of_readNatural hread
  · obtain rfl | ⟨row, -, hread⟩ := Fields.exists_of_getD hcapacity
    · exact bounded_default.capacity
    · exact le_of_readNatural hread

theorem finds (h : s.Bounded) : Finds (read origin) s s.toJson := by
  intro r hr
  have hhost := finds_string s.host
  have hcapacity := finds_natural "usize" h.capacity (by decide)
  have hpath := finds_string s.path
  have hport := finds_natural "u16" h.port (by decide)
  obtain ⟨fields, hread, hfields⟩ := record.fieldsOf_of_tells origin hr (by simp)
    (by
      simp only [List.forall_mem_cons]
      exact ⟨fun r => Record.accepts_of_finds rfl hhost, fun r => Record.accepts_of_finds rfl hcapacity,
        fun r => Record.accepts_of_finds rfl hpath, fun r => Record.accepts_of_finds rfl hport, nofun⟩)
    (by simp [record, Field.optional])
  have h₁ := Fields.getD_of_finds default.host hhost (hfields "host" _ (by simp) rfl)
  have h₂ := Fields.getD_of_finds default.listenPort hport
    (hfields "port" _ (by simp) rfl)
  have h₃ := Fields.getD_of_finds default.path hpath (hfields "path" _ (by simp) rfl)
  have h₄ := Fields.getD_of_finds default.outboundCapacity hcapacity
    (hfields "outboundCapacity" _ (by simp) rfl)
  rw [read, hread]
  exact bind_eq_ok_iff.mpr ⟨_, rfl, bind_eq_ok_iff.mpr ⟨_, h₁, bind_eq_ok_iff.mpr ⟨_, h₂,
    bind_eq_ok_iff.mpr ⟨_, h₃, bind_eq_ok_iff.mpr ⟨_, h₄, rfl⟩⟩⟩⟩⟩

theorem legible_toJson (s : ServerSettings) : s.toJson.Legible :=
  ⟨trivial, legible_ofNat _, trivial, legible_ofNat _, trivial⟩

end ServerSettings

theorem AccessLevel.ofText?_name (level : AccessLevel) : ofText? level.name = some level := by
  cases level <;> decide +kernel

theorem TokenGrant.finds_level (level : AccessLevel) : Finds readLevel level (.text level.name) := by
  intro r hr
  refine bind_eq_ok_iff.mpr ⟨level.name, finds_string level.name r hr, ?_⟩
  rw [AccessLevel.ofText?_name]
  rfl

namespace PermissionSettings

variable {p : PermissionSettings} {origin : Origin}

def Bounded : PermissionSettings → Prop
  | .table ttl _ => ttl ≤ 0xffffffffffffffff
  | .service _ timeout => timeout ≤ 0xffffffffffffffff

theorem bounded_of_read {r : Reading} (h : read origin r = .ok p) : p.Bounded := by
  obtain ⟨⟨variant, content⟩, -, h⟩ := bind_eq_ok_iff.mp h
  dsimp only at h
  split at h
  · obtain ⟨fields, -, h⟩ := bind_eq_ok_iff.mp h
    obtain ⟨ttl, httl, h⟩ := bind_eq_ok_iff.mp h
    obtain ⟨tokens, -, h⟩ := bind_eq_ok_iff.mp h
    cases h
    obtain rfl | ⟨row, -, hread⟩ := Fields.exists_of_getD httl
    · show defaultTtl ≤ _
      decide
    · exact le_of_readNatural hread
  · obtain ⟨fields, -, h⟩ := bind_eq_ok_iff.mp h
    obtain ⟨url, -, h⟩ := bind_eq_ok_iff.mp h
    obtain ⟨timeout, htimeout, h⟩ := bind_eq_ok_iff.mp h
    cases h
    obtain rfl | ⟨row, -, hread⟩ := Fields.exists_of_getD htimeout
    · show defaultTimeout ≤ _
      decide
    · exact le_of_readNatural hread

def tokensJson (tokens : Table String (Table String AccessLevel)) : Json :=
  .ofTable tokens fun grants => .ofTable grants fun level => .text level.name

theorem sorted_tokensJson (tokens : Table String (Table String AccessLevel)) :
    (tokensJson tokens).Sorted :=
  sorted_ofTable fun _ _ => sorted_ofTable fun _ _ => trivial

theorem legible_tokensJson (tokens : Table String (Table String AccessLevel)) :
    (tokensJson tokens).Legible :=
  legible_ofTable fun _ _ => legible_ofTable fun _ _ => trivial

theorem depth_tokensJson (tokens : Table String (Table String AccessLevel)) :
    (tokensJson tokens).depth ≤ 2 :=
  depth_ofTable_le fun _ _ => depth_ofTable_le fun _ _ => le_rfl

theorem finds_tokens (tokens : Table String (Table String AccessLevel)) :
    Finds readTokens tokens (tokensJson tokens) :=
  finds_table fun _ _ => finds_table fun _ _ => TokenGrant.finds_level _

theorem finds_ofTable {ttl : Nat} (h : ttl ≤ 0xffffffffffffffff)
    (tokens : Table String (Table String AccessLevel)) :
    Finds (read origin) (.table ttl tokens) (PermissionSettings.table ttl tokens).toJson := by
  intro r hr
  have htokens := finds_tokens tokens
  have httl := finds_natural "u64" h (by decide)
  have hsorted : (PermissionSettings.table ttl tokens).toJson.Sorted :=
    ⟨(List.pairwise_map (f := Prod.fst)).mp
      (by decide +kernel : ["tokens", "ttl", "type"].Pairwise (· < ·)),
      sorted_tokensJson tokens, trivial, trivial, trivial⟩
  obtain ⟨content, hsplit, hcontent⟩ := choice.split_of_tells origin (v := "static") hr
    hsorted (by simp [choice]) (by simp [choice])
  have hcontent : content.Tells (.object [("tokens", tokensJson tokens), ("ttl", .ofNat ttl)]) :=
    hcontent
  obtain ⟨fields, hread, hfields⟩ := tableRecord.fieldsOf_of_tells .choice hcontent (by simp)
    (by
      simp only [List.forall_mem_cons]
      exact ⟨fun r => Record.accepts_of_finds rfl htokens, fun r => Record.accepts_of_finds rfl httl,
        nofun⟩)
    (by simp [tableRecord, Field.optional])
  have h₁ := Fields.getD_of_finds defaultTtl httl (hfields "ttl" _ (by simp) rfl)
  have h₂ := Fields.getD_of_finds .empty htokens (hfields "tokens" _ (by simp) rfl)
  rw [read, hsplit]
  exact bind_eq_ok_iff.mpr ⟨_, rfl, bind_eq_ok_iff.mpr ⟨_, hread, bind_eq_ok_iff.mpr ⟨_, h₁,
    bind_eq_ok_iff.mpr ⟨_, h₂, rfl⟩⟩⟩⟩

theorem finds_ofService {timeout : Nat} (h : timeout ≤ 0xffffffffffffffff) (url : String) :
    Finds (read origin) (.service url timeout) (PermissionSettings.service url timeout).toJson := by
  intro r hr
  have htimeout := finds_natural "u64" h (by decide)
  have hurl := finds_string url
  have hsorted : (PermissionSettings.service url timeout).toJson.Sorted :=
    ⟨(List.pairwise_map (f := Prod.fst)).mp
      (by decide +kernel : ["timeoutMs", "type", "url"].Pairwise (· < ·)),
      trivial, trivial, trivial, trivial⟩
  obtain ⟨content, hsplit, hcontent⟩ := choice.split_of_tells origin (v := "http") hr
    hsorted (by simp [choice]) (by simp [choice])
  have hcontent : content.Tells (.object [("timeoutMs", .ofNat timeout), ("url", .text url)]) :=
    hcontent
  obtain ⟨fields, hread, hfields⟩ := serviceRecord.fieldsOf_of_tells .choice hcontent (by simp)
    (by
      simp only [List.forall_mem_cons]
      exact ⟨fun r => Record.accepts_of_finds rfl htimeout, fun r => Record.accepts_of_finds rfl hurl,
        nofun⟩)
    (by simp [serviceRecord, Field.optional, Field.needed])
  have h₁ := Fields.get_of_finds hurl (hfields "url" _ (by simp) rfl)
  have h₂ := Fields.getD_of_finds defaultTimeout htimeout
    (hfields "timeoutMs" _ (by simp) rfl)
  rw [read, hsplit]
  exact bind_eq_ok_iff.mpr ⟨_, rfl, bind_eq_ok_iff.mpr ⟨_, hread, bind_eq_ok_iff.mpr ⟨_, h₁,
    bind_eq_ok_iff.mpr ⟨_, h₂, rfl⟩⟩⟩⟩

theorem finds (h : p.Bounded) : Finds (read origin) p p.toJson := by
  cases p with
  | table ttl tokens => exact finds_ofTable h tokens
  | service url timeout => exact finds_ofService h url

theorem legible_toJson (p : PermissionSettings) : p.toJson.Legible := by
  cases p with
  | table ttl tokens => exact ⟨legible_tokensJson tokens, legible_ofNat _, trivial, trivial⟩
  | service url timeout => exact ⟨legible_ofNat _, trivial, trivial, trivial⟩

theorem depth_toJson_le (p : PermissionSettings) : p.toJson.depth ≤ 3 := by
  cases p with
  | table ttl tokens =>
    have h := depth_tokensJson tokens
    simp only [tokensJson] at h
    simp only [toJson, Json.depth, Json.depthMembers, Json.ofNat]
    omega
  | service url timeout => simp [toJson, Json.depth, Json.depthMembers, Json.ofNat]

end PermissionSettings

namespace Config

variable {c : Config} {text : String}

/-- What every configuration has that was read from a text: numbers that a text can have, and settings
that do not go deeper than a text below the list of adapters. -/
structure Bounded (c : Config) : Prop where
  server : c.server.Bounded
  permissions : c.permissions.Bounded
  settings : ∀ spec ∈ c.adapters, spec.config.Sorted ∧ spec.config.depth ≤ 124

theorem bounded_of_ofText (h : ofText text = .ok c) : c.Bounded := by
  obtain ⟨hread, -⟩ := read_ofText_eq_ok_iff.mp (mapError_eq_ok_iff.mp h)
  have hwhole := Reading.depth_whole text
  obtain ⟨fields, hfields, h⟩ := bind_eq_ok_iff.mp hread
  have hdepth := Record.depth_lt_of_fieldsOf hfields
  obtain ⟨name, -, h⟩ := bind_eq_ok_iff.mp h
  obtain ⟨server, hserver, h⟩ := bind_eq_ok_iff.mp h
  obtain ⟨permissions, hpermissions, h⟩ := bind_eq_ok_iff.mp h
  obtain ⟨adapters, hadapters, h⟩ := bind_eq_ok_iff.mp h
  cases h
  refine ⟨?_, ?_, ?_⟩
  · obtain rfl | ⟨row, -, hread⟩ := Fields.exists_of_getD hserver
    · exact ServerSettings.bounded_default
    · exact ServerSettings.bounded_of_read hread
  · obtain rfl | ⟨row, -, hread⟩ := Fields.exists_of_getD hpermissions
    · show PermissionSettings.defaultTtl ≤ _
      decide
    · exact PermissionSettings.bounded_of_read hread
  · intro spec hspec
    obtain rfl | ⟨row, hrow, hread⟩ := Fields.exists_of_getD hadapters
    · cases hspec
    · obtain ⟨item, hitem, hread⟩ := exists_of_mem_readList hread spec hspec
      obtain ⟨hsorted, hdeep⟩ := AdapterSpec.settings_of_read hread
      refine ⟨hsorted, ?_⟩
      have hrow := hdepth row hrow
      rw [show maxDepth = 127 from rfl] at hwhole
      obtain hnull | hdeep := hdeep
      · rw [hnull]
        decide
      · omega

theorem finds (h : c.Bounded) : Finds read c c.toJson := by
  intro r hr
  have hname := finds_string c.name
  have hserver : Finds (ServerSettings.read .text) c.server c.server.toJson :=
    ServerSettings.finds h.server
  have hpermissions : Finds (PermissionSettings.read .text) c.permissions c.permissions.toJson :=
    PermissionSettings.finds h.permissions
  have hadapters : Finds (readList (AdapterSpec.read .text)) c.adapters
      (.array (c.adapters.map AdapterSpec.toJson)) :=
    finds_list fun spec hspec => AdapterSpec.finds (h.settings spec hspec).1
  obtain ⟨fields, hread, hfields⟩ := record.fieldsOf_of_tells .text hr (by simp)
    (by
      simp only [List.forall_mem_cons]
      exact ⟨fun r => Record.accepts_of_finds rfl hadapters, fun r => Record.accepts_of_finds rfl hname,
        fun r => Record.accepts_of_finds rfl hpermissions,
        fun r => Record.accepts_of_finds rfl hserver, nofun⟩)
    (by simp [record, Field.optional])
  have h₁ := Fields.getD_of_finds defaultName hname (hfields "name" _ (by simp) rfl)
  have h₂ := Fields.getD_of_finds .default hserver (hfields "server" _ (by simp) rfl)
  have h₃ := Fields.getD_of_finds .default hpermissions
    (hfields "permissions" _ (by simp) rfl)
  have h₄ := Fields.getD_of_finds [] hadapters (hfields "adapters" _ (by simp) rfl)
  rw [read, hread]
  exact bind_eq_ok_iff.mpr ⟨_, rfl, bind_eq_ok_iff.mpr ⟨_, h₁, bind_eq_ok_iff.mpr ⟨_, h₂,
    bind_eq_ok_iff.mpr ⟨_, h₃, bind_eq_ok_iff.mpr ⟨_, h₄, rfl⟩⟩⟩⟩⟩

theorem legible_toJson (hl : ∀ spec ∈ c.adapters, spec.config.Legible) : c.toJson.Legible := by
  refine ⟨?_, trivial, c.permissions.legible_toJson, c.server.legible_toJson, trivial⟩
  refine legibleItems_iff.mpr (List.forall_mem_map.mpr fun spec hspec => ?_)
  exact AdapterSpec.legible_toJson (hl spec hspec)

theorem depth_toJson_le (h : c.Bounded) : c.toJson.depth ≤ maxDepth := by
  have hadapters : depthItems (c.adapters.map AdapterSpec.toJson) ≤ 125 := by
    refine depthItems_le_iff.mpr (List.forall_mem_map.mpr fun spec hspec => ?_)
    rw [AdapterSpec.depth_toJson]
    exact Nat.succ_le_succ (h.settings spec hspec).2
  have hpermissions := c.permissions.depth_toJson_le
  have hserver : c.server.toJson.depth = 1 := rfl
  simp only [toJson, Json.depth, Json.depthMembers, hserver, maxDepth]
  omega

/-- A configuration that was read from any text is read again from each text of what is written of it,
be that compact or indented and with members in any order, and it passes or fails the same checks. Of
the numbers in the settings of its adapters it is assumed that they are legible. -/
theorem reads_again (h : ofText text = .ok c) (hl : ∀ spec ∈ c.adapters, spec.config.Legible)
    {j : Json} (hj : j.Alike c.toJson) :
    ofText j.compact = .ok c ∧ ofText j.indented = .ok c ∧
      ∀ types, (ofText j.compact >>= fun again => again.check types) = c.check types := by
  have hbounded := bounded_of_ofText h
  have hagain : ∀ again : String, Spelled [] again.toList j → ofText again = .ok c := by
    intro again hspelled
    have hyields := yields_whole hspelled (legible_of_alike hj (legible_toJson hl))
    have hdepth : j.depth ≤ maxDepth := (depth_of_alike hj).trans_le (depth_toJson_le hbounded)
    have htells := hyields.fits.value (by omega)
    exact mapError_eq_ok_iff.mpr
      ((read_of_yields hyields).mpr (finds hbounded _ (htells.alike hj)))
  have hcompact := hagain _ (spelled_compact j)
  refine ⟨hcompact, hagain _ (spelled_indented j), fun types => ?_⟩
  rw [hcompact]
  rfl

/-- A text with a member that is not known, records as arrays and an access level in its short form,
which leaves out what has a default. -/
def sparseText : String :=
  "\x7b\"x\":null,\"adapters\":[[\"fixed\",\"a\"],\x7b\"config\":\x7b\"b\":[1],\"a\":2\x7d," ++
    "\"name\":\"n\",\"type\":\"k\"\x7d],\"server\":[\"h\",9],\"permissions\":\x7b\"tokens\":\x7b" ++
    "\"t\":\x7b\"Signal.*\":\" RW \"\x7d\x7d,\"type\":\"static\"\x7d\x7d"

def sparse : Config where
  name := "Vehicle Information Service"
  server := ⟨"h", 9, "/", 100⟩
  permissions := .table 3600 (Table.empty.insert "t" (Table.empty.insert "Signal.*" .readWrite))
  adapters := [⟨"fixed", "a", .null⟩,
    ⟨"k", "n", .object [("a", .number 2), ("b", .array [.number 1])]⟩]

/-- The configuration is written with its members from the last to the first. -/
theorem reads_again_sparse : ofText sparseText = .ok sparse ∧
    ofText (Json.object [("server", sparse.server.toJson), ("permissions", sparse.permissions.toJson),
      ("name", .text sparse.name), ("adapters", .array (sparse.adapters.map AdapterSpec.toJson))]).compact =
      .ok sparse := by
  have h : ofText sparseText = .ok sparse := by cbv
  refine ⟨h, (reads_again h ?_ ⟨_, _, rfl, List.reverse_perm _, alikeMembers_refl _⟩).1⟩
  intro spec hspec
  simp only [sparse, List.mem_cons, List.not_mem_nil, or_false] at hspec
  obtain rfl | rfl := hspec
  · trivial
  · exact ⟨legibleNumber_natural 2, ⟨legibleNumber_natural 1, trivial⟩, trivial⟩

end Config

end SignalBroker
