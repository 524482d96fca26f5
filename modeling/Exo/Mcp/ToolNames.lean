import Mathlib.Data.List.Infix
import Mathlib.Data.List.Nodup
import Exo.Library.Checks
import Exo.Scheduler.Schedule

/-!
# Names of MCP tools

A tool is exposed as `exo_mcp__server__tool`, or under the readable part of it and a digest when
that is too long or not plain.  Two plain names may still be cut in two places, and a plain name may
end like a digest.
-/

namespace Exo.Mcp

open Library List
open Scheduler (byteLength)

abbrev Text := List Char

structure McpServerConfig where
  name : Text
  url : Text
  allowedTools : Option (List Text)
  blockedTools : List Text
  deriving DecidableEq

/-- What is read of a parsed URL. -/
structure Url where
  scheme : String
  host : Option Text
  username : Text
  password : Option Text
  fragment : Option Text

structure Sha256 where
  /-- The digest in lower-case hexadecimal digits. -/
  digest : Text → Text
  length_digest : ∀ text, (digest text).length = 64
  hex : ∀ text, ∀ c ∈ digest text, c ∈ "0123456789abcdef".toList

def nameChar (c : Char) : Bool := c.isAlphanum || c = '_' || c = '-'

/-! ## Server lists -/

def McpServerConfig.validateToolNames (server : McpServerConfig) (names : List Text) :
    Except String Unit :=
  (server.allowedTools.getD [] ++ server.blockedTools).forM fun name ↦ ensure (names.contains name)
    ("MCP server " ++ .ofList server.name ++ " has no tool named " ++ .ofList name)

def McpServerConfig.allowsTool (server : McpServerConfig) (name : Text) : Bool :=
  server.allowedTools.all (·.contains name) && !server.blockedTools.contains name

/-- The loops that insert names into a set, after a check of each. -/
def insertEach (check : Text → Except String Unit) (duplicate : String) (seen : List Text) :
    List Text → Except String Unit
  | [] => .ok ()
  | name :: names => do
    check name
    ensure (!seen.contains name) (duplicate ++ .ofList name)
    insertEach check duplicate (name :: seen) names

def validateServerNames : List Text → Except String Unit :=
  insertEach (fun name ↦ ensure (name ≠ [] && name.all nameChar)
    "MCP server names must contain only letters, numbers, underscores, or hyphens")
    "duplicate MCP server: " []

def validateServers (parse : Text → Option Url) (servers : List McpServerConfig) :
    Except String Unit := do
  validateServerNames (servers.map (·.name))
  servers.forM fun server ↦ do
    let url ← context (parse server.url) ("invalid URL for MCP server " ++ .ofList server.name)
    ensure (["http", "https"].contains url.scheme && url.host.isSome && url.username = [] &&
        url.password.isNone && url.fragment.isNone)
      ("MCP server " ++ .ofList server.name ++
        " requires an HTTP(S) URL without embedded credentials or a fragment")

/-! ## Exposed names -/

section
variable (server tool : Text)

def fullName : Text :=
  ['e', 'x', 'o', '_', 'm', 'c', 'p', '_', '_'] ++ server ++ ['_', '_'] ++ tool

/-- The full name is exposed as it is. -/
def isPlain : Bool :=
  byteLength (fullName server tool) ≤ 64 && (fullName server tool).all nameChar &&
    !decide (['_', '_'] <:+: server)

def readable : Text :=
  ((fullName server tool).map fun c ↦ if nameChar c then c else '_').take 39

end

/-- `text[..n]`, which panics past the end and within a character. -/
def sliceTo : ℕ → Text → Option Text
  | 0, _ => some []
  | _, [] => none
  | n, c :: text => if c.utf8Size ≤ n then (sliceTo (n - c.utf8Size) text).map (c :: ·) else none

variable (sha : Sha256)

section
variable (server tool : Text)

def hash : Text := sha.digest (server ++ Char.ofNat 0 :: tool)

def hashedName : Text :=
  readable server tool ++ ['_', '_'] ++ hash sha server tool

/-- The digits of the digest that a cut name keeps. -/
def digits : Text :=
  (hash sha server tool).take (62 - (readable server tool).length)

def exposedName : Option Text :=
  if isPlain server tool then some (fullName server tool)
  else sliceTo 64 (hashedName sha server tool)

end

/-! ## Tool sets -/

structure McpTool where
  name : Text
  serverName : Text
  toolName : Text
  deriving DecidableEq

structure Connection where
  server : McpServerConfig
  disabledTools : List Text
  isOpen : Bool
  deriving DecidableEq

structure McpToolSet where
  connections : List Connection
  tools : List McpTool
  deriving DecidableEq

/-- One server of `connect_with_provider`, with the tools it lists. -/
def connectServer (server : McpServerConfig) (listed : List Text) :
    Except String (Connection × List McpTool) := do
  server.validateToolNames listed
  let tools ← (listed.filter server.allowsTool).mapM fun tool ↦ do
    let name ← context (exposedName sha server.name tool) "byte index 64 is out of bounds"
    return ⟨name, server.name, tool⟩
  return (⟨server, listed.filter (!server.allowsTool ·), true⟩, tools)

/-- `connect_with_provider`, with what the servers answer. -/
def connectWithProvider (parse : Text → Option Url)
    (listTools : McpServerConfig → Except String (List Text)) (servers : List McpServerConfig) :
    Except String McpToolSet := do
  validateServers parse servers
  let connected ← servers.mapM fun server ↦ (listTools server >>= connectServer sha server).mapError
    fun _ ↦ "connecting MCP server " ++ .ofList server.name
  let tools := connected.flatMap Prod.snd
  insertEach (fun _ ↦ .ok ()) "duplicate exposed MCP tool: " [] (tools.map (·.name))
  return ⟨connected.map Prod.fst, tools⟩

/-- The server and the tool that `call` reaches. -/
def McpToolSet.call (set : McpToolSet) (name : Text) : Except String (Text × Text) := do
  let tool ← context (set.tools.find? (·.name = name))
    ("MCP tool is not available: " ++ .ofList name)
  let connection ← context (set.connections.find? (·.server.name = tool.serverName))
    "MCP connection is missing"
  ensure connection.isOpen "MCP connection is closed"
  return (connection.server.name, tool.toolName)

/-! ## The properties -/

section
variable (servers : List McpServerConfig) (listed : McpServerConfig → List Text)

/-- The tools that the servers list. -/
def listedTools : List (Text × Text) :=
  servers.flatMap fun server ↦ (listed server).map (server.name, ·)

/-- Those that the servers' lists admit. -/
def admittedTools : List (Text × Text) :=
  listedTools servers fun server ↦ (listed server).filter server.allowsTool

structure NamesTools (connected : Except String McpToolSet) : Prop where
  distinct : ∀ p ∈ listedTools servers listed, ∀ q ∈ listedTools servers listed, p ≠ q →
    exposedName sha p.1 p.2 ≠ exposedName sha q.1 q.2
  short : ∀ p ∈ listedTools servers listed, ∃ name, exposedName sha p.1 p.2 = some name ∧
    name.length ≤ 64 ∧ ∀ c ∈ name, nameChar c = true
  connects : ∀ name : Text, connected ≠ .error ("duplicate exposed MCP tool: " ++ .ofList name)
  tools : ∀ set, connected = .ok set →
    set.tools.map (fun tool ↦ (tool.serverName, tool.toolName)) = admittedTools servers listed
  calls : ∀ set, connected = .ok set → ∀ name p, set.call name = .ok p ↔
    p ∈ admittedTools servers listed ∧ exposedName sha p.1 p.2 = some name

end

/-- Two plain names are cut in two places, or a plain name reads like one with a digest. -/
def Clash (p q : Text × Text) : Prop :=
  isPlain p.1 p.2 = true ∧
    (isPlain q.1 q.2 = true ∧ q.1 = p.1 ++ ['_'] ∧ p.2 = '_' :: q.2 ∨
      isPlain q.1 q.2 = false ∧
        fullName p.1 p.2 = readable q.1 q.2 ++ ['_', '_'] ++ digits sha q.1 q.2)

section Names
variable {sha} {c : Char} {n : ℕ} {server tool : Text} {text : Text}

theorem utf8Size_eq_one (hc : nameChar c = true) : c.utf8Size = 1 := by
  rw [nameChar, Bool.or_eq_true, Bool.or_eq_true] at hc
  rcases hc with (hc | hc) | hc
  · unfold Char.isAlphanum Char.isAlpha Char.isUpper Char.isLower Char.isDigit at hc
    simp only [Bool.or_eq_true, Bool.and_eq_true, decide_eq_true_eq, UInt32.le_iff_toNat_le] at hc
    have hval : c.toNat ≤ 127 := by
      simp at hc
      omega
    exact if_pos (UInt32.le_iff_toNat_le.2 (show c.val.toNat ≤ 127 from hval))
  · rw [of_decide_eq_true hc]
    rfl
  · rw [of_decide_eq_true hc]
    rfl

theorem sliceTo_eq (htext : ∀ c ∈ text, nameChar c = true) (hn : n ≤ text.length) :
    sliceTo n text = some (text.take n) := by
  induction text generalizing n with
  | nil => simp_all [sliceTo]
  | cons c text ih =>
    cases n with
    | zero => rfl
    | succ n =>
      rw [forall_mem_cons] at htext
      simp [sliceTo, utf8Size_eq_one htext.1, ih htext.2 (Nat.le_of_succ_le_succ hn)]

theorem length_le_byteLength (text : Text) : text.length ≤ byteLength text := by
  induction text with
  | nil => exact le_rfl
  | cons c text ih =>
    have hc := c.utf8Size_pos
    simp only [byteLength, map_cons, sum_cons, length_cons] at ih ⊢
    omega

theorem length_readable_le (server tool : Text) : (readable server tool).length ≤ 39 :=
  length_take_le _ _

theorem mem_hash (hc : c ∈ hash sha server tool) : nameChar c = true ∧ c ≠ '_' := by
  have hdigits : "0123456789abcdef".toList.all (fun c ↦ nameChar c && c != '_') = true := by
    decide
  simpa using all_eq_true.1 hdigits c (sha.hex _ c hc)

theorem mem_readable (hc : c ∈ readable server tool) : nameChar c = true := by
  obtain ⟨c, -, rfl⟩ := mem_map.1 (mem_of_mem_take hc)
  split
  · assumption
  · decide

theorem mem_hashedName (hc : c ∈ hashedName sha server tool) : nameChar c = true := by
  rw [hashedName, mem_append, mem_append] at hc
  rcases hc with (hc | hc) | hc
  · exact mem_readable hc
  · exact all_eq_true.1 (by decide : ['_', '_'].all nameChar = true) c hc
  · exact (mem_hash hc).1

theorem take_hashedName (server tool : Text) : (hashedName sha server tool).take 64 =
    readable server tool ++ ['_', '_'] ++ digits sha server tool := by
  have hreadable := length_readable_le server tool
  rw [hashedName, digits, take_append, take_of_length_le (by simp; omega), length_append,
    Nat.add_comm, Nat.sub_add_eq]
  rfl

/-- Cutting the name with a digest does not panic. -/
theorem exposedName_hashed (hplain : isPlain server tool = false) : exposedName sha server tool =
      some (readable server tool ++ ['_', '_'] ++ digits sha server tool) := by
  have hlength : (hash sha server tool).length = 64 := sha.length_digest _
  rw [exposedName, hplain, if_neg Bool.false_ne_true, ← take_hashedName]
  exact sliceTo_eq (fun _ ↦ mem_hashedName) (by simp [hashedName, hlength])

theorem exposedName_plain (hplain : isPlain server tool = true) :
    exposedName sha server tool = some (fullName server tool) := by
  rw [exposedName, hplain, if_pos rfl]

/-- Every tool has a name, of at most 64 characters. -/
theorem exposedName_short (server tool : Text) : ∃ name, exposedName sha server tool = some name ∧
    name.length ≤ 64 ∧ ∀ c ∈ name, nameChar c = true := by
  cases hplain : isPlain server tool with
  | true =>
    refine ⟨_, exposedName_plain hplain, ?_⟩
    simp only [isPlain, Bool.and_eq_true, decide_eq_true_eq, all_eq_true] at hplain
    exact ⟨(length_le_byteLength _).trans hplain.1.1, hplain.1.2⟩
  | false =>
    refine ⟨_, exposedName_hashed hplain, ?_⟩
    rw [← take_hashedName]
    exact ⟨length_take_le _ _, fun _ hc ↦ mem_hashedName (mem_of_mem_take hc)⟩

theorem separated_of_isPlain (hplain : isPlain server tool = true) : ¬['_', '_'] <:+: server := by
  rw [isPlain, Bool.and_eq_true, Bool.not_eq_true', decide_eq_false_iff_not] at hplain
  exact hplain.2

theorem clash_of_fullName_eq {s t s' t' : Text} (hs' : ¬['_', '_'] <:+: s')
    (heq : s ++ (['_', '_'] ++ t) = s' ++ (['_', '_'] ++ t')) (hle : s.length ≤ s'.length) :
    s = s' ∧ t = t' ∨ s' = s ++ ['_'] ∧ t = '_' :: t' := by
  obtain ⟨a, rfl⟩ := prefix_of_prefix_length_le ⟨_, heq⟩ (prefix_append s' _) hle
  rw [append_assoc, append_cancel_left_eq] at heq
  rcases a with - | ⟨first, - | ⟨second, rest⟩⟩
  · exact .inl ⟨(append_nil s).symm, append_cancel_left heq⟩
  · simp only [cons_append, nil_append, cons.injEq] at heq
    obtain ⟨rfl, -, rfl⟩ := heq
    exact .inr ⟨rfl, rfl⟩
  · simp only [cons_append, nil_append, cons.injEq] at heq
    obtain ⟨rfl, rfl, -⟩ := heq
    exact absurd ⟨s, rest, by simp⟩ hs'

/-- The readable part ends where the digits begin: no digit is an underscore. -/
theorem length_readable_le_of_eq {server' tool' : Text}
    (heq : readable server tool ++ ['_', '_'] ++ digits sha server tool =
      readable server' tool' ++ ['_', '_'] ++ digits sha server' tool') :
    (readable server' tool').length ≤ (readable server tool).length := by
  by_contra hlt
  -- The second underscore of one name stands at a digit of the other.
  have hat := congrArg (·[(readable server' tool').length + 1]?) heq
  rw [getElem?_append_right (by simp; omega), getElem?_append_left (by simp),
    getElem?_append_right (by omega), Nat.add_sub_cancel_left] at hat
  exact (mem_hash (mem_of_mem_take (mem_of_getElem? hat))).2 rfl

theorem digits_of_eq {server' tool' : Text}
    (heq : readable server tool ++ ['_', '_'] ++ digits sha server tool =
      readable server' tool' ++ ['_', '_'] ++ digits sha server' tool') :
    digits sha server tool = digits sha server' tool' := by
  have hlength := (length_readable_le_of_eq heq.symm).antisymm (length_readable_le_of_eq heq)
  exact (append_inj heq (by simp [hlength])).2

/-- Tools share a name when they clash, or when they are one. -/
theorem clash_of_exposedName_eq {p q : Text × Text}
    (hdigest : digits sha p.1 p.2 = digits sha q.1 q.2 → p = q)
    (heq : exposedName sha p.1 p.2 = exposedName sha q.1 q.2) :
    p = q ∨ Clash sha p q ∨ Clash sha q p := by
  by_cases hp : isPlain p.1 p.2 = true
  · have heq := (exposedName_plain hp).symm.trans heq
    by_cases hq : isPlain q.1 q.2 = true
    · have hfull := Option.some.inj (heq.trans (exposedName_plain hq))
      simp only [fullName, append_assoc] at hfull
      have hcut := append_cancel_left hfull
      rcases le_total p.1.length q.1.length with hle | hle
      · rcases clash_of_fullName_eq (separated_of_isPlain hq) hcut hle with ⟨h, h'⟩ | hclash
        · exact .inl (Prod.ext h h')
        · exact .inr (.inl ⟨hp, .inl ⟨hq, hclash⟩⟩)
      · rcases clash_of_fullName_eq (separated_of_isPlain hp) hcut.symm hle with ⟨h, h'⟩ | hclash
        · exact .inl (Prod.ext h.symm h'.symm)
        · exact .inr (.inr ⟨hq, .inl ⟨hp, hclash⟩⟩)
    · rw [Bool.not_eq_true] at hq
      have hname := Option.some.inj (heq.trans (exposedName_hashed hq))
      exact .inr (.inl ⟨hp, .inr ⟨hq, hname⟩⟩)
  · rw [Bool.not_eq_true] at hp
    have heq := (exposedName_hashed hp).symm.trans heq
    by_cases hq : isPlain q.1 q.2 = true
    · have hname := Option.some.inj (heq.trans (exposedName_plain hq))
      exact .inr (.inr ⟨hq, .inr ⟨hp, hname.symm⟩⟩)
    · rw [Bool.not_eq_true] at hq
      have hname := Option.some.inj (heq.trans (exposedName_hashed hq))
      exact .inl (hdigest (digits_of_eq hname))

theorem exposedName_eq_of_clash {p q : Text × Text} (hclash : Clash sha p q) :
    p ≠ q ∧ exposedName sha p.1 p.2 = exposedName sha q.1 q.2 := by
  obtain ⟨hp, ⟨hq, hserver, htool⟩ | ⟨hq, hname⟩⟩ := hclash
  · refine ⟨fun heq ↦ ?_, (exposedName_plain hp).trans (.trans ?_ (exposedName_plain hq).symm)⟩
    · rw [heq] at hserver
      exact absurd (congrArg length hserver) (by simp)
    · rw [fullName, fullName, hserver, htool]
      simp only [append_assoc, cons_append, nil_append]
  · refine ⟨fun heq ↦ ?_, (exposedName_plain hp).trans (.trans ?_ (exposedName_hashed hq).symm)⟩
    · rw [heq, hq] at hp
      cases hp
    · rw [hname]

end Names

section Sets
variable {sha} {parse : Text → Option Url} {servers : List McpServerConfig}
  {listed : McpServerConfig → List Text} {server : McpServerConfig}

theorem insertEach_eq_ok {check : Text → Except String Unit} {duplicate : String}
    {seen names : List Text} {result : Unit} : insertEach check duplicate seen names = .ok result ↔
      (∀ name ∈ names, check name = .ok ()) ∧ names.Nodup ∧ ∀ name ∈ names, name ∉ seen := by
  induction names generalizing seen with
  | nil => simp [insertEach]
  | cons name names ih =>
    simp only [insertEach, bind_eq_ok, ensure_eq_ok, ih, nodup_cons, mem_cons]
    grind

variable (sha) in
def toolOf (tool : Text × Text) : McpTool :=
  ⟨(exposedName sha tool.1 tool.2).getD [], tool.1, tool.2⟩

variable (sha listed) in
/-- What a server that connects gives. -/
def connectedServer (server : McpServerConfig) : Connection × List McpTool :=
  (⟨server, (listed server).filter (!server.allowsTool ·), true⟩,
    (((listed server).filter server.allowsTool).map (server.name, ·)).map (toolOf sha))

theorem connectServer_eq_ok {result : Connection × List McpTool}
    (hresult : connectServer sha server (listed server) = .ok result) :
    connectedServer sha listed server = result := by
  simp only [connectServer, bind_eq_ok, mapM_eq_ok, context_eq_ok, pure_eq_ok] at hresult
  obtain ⟨-, -, tools, htools, rfl⟩ := hresult
  have hnamed : Forall₂ (fun tool result ↦ toolOf sha (server.name, tool) = result)
      ((listed server).filter server.allowsTool) tools := by
    refine htools.imp ?_
    rintro tool _ ⟨name, hname, rfl⟩
    rw [toolOf, hname, Option.getD_some]
  rw [← forall₂_map_left_iff (f := fun tool ↦ toolOf sha (server.name, tool)),
    forall₂_eq_eq_eq] at hnamed
  rw [connectedServer, ← hnamed, map_map]
  rfl

theorem mapM_eq_error {α β : Type} {f : α → Except String β} {items : List α} {message : String}
    (herror : items.mapM f = .error message) : ∃ item ∈ items, f item = .error message := by
  induction items with
  | nil => cases herror
  | cons item items ih =>
    rw [mapM_cons] at herror
    cases hitem : f item with
    | error other =>
      rw [hitem] at herror
      cases herror
      exact ⟨item, mem_cons_self, hitem⟩
    | ok result =>
      cases hitems : items.mapM f with
      | error other =>
        simp only [hitem, hitems, bind, Except.bind] at herror
        obtain ⟨failed, hmem, hfailed⟩ := ih (hitems.trans herror)
        exact ⟨failed, mem_cons_of_mem _ hmem, hfailed⟩
      | ok results =>
        simp only [hitem, hitems, bind, Except.bind, pure, Except.pure] at herror
        cases herror

/-- With different names a listing is connected, unless one server is not. -/
theorem connectWithProvider_cases (hvalid : validateServers parse servers = .ok ())
    (hnodup : ((admittedTools servers listed).map fun tool ↦ (toolOf sha tool).name).Nodup) :
    (∃ message, connectWithProvider sha parse (fun server ↦ .ok (listed server)) servers =
      .error ("connecting MCP server " ++ message)) ∨
    connectWithProvider sha parse (fun server ↦ .ok (listed server)) servers =
      .ok ⟨servers.map fun server ↦ (connectedServer sha listed server).1,
        (admittedTools servers listed).map (toolOf sha)⟩ := by
  rw [connectWithProvider, hvalid]
  cases hconnected : servers.mapM fun server ↦
      (Except.ok (listed server) >>= connectServer sha server).mapError
        fun _ ↦ "connecting MCP server " ++ .ofList server.name with
  | error message =>
    obtain ⟨server, -, hserver⟩ := mapM_eq_error hconnected
    refine .inl ⟨.ofList server.name, ?_⟩
    cases hresult : Except.ok (listed server) >>= connectServer sha server with
    | ok result => simp [hresult, Except.mapError] at hserver
    | error _ =>
      rw [hresult] at hserver
      cases hserver
      rfl
  | ok connected =>
    have hentries : servers.map (connectedServer sha listed) = connected := by
      rw [mapM_eq_ok] at hconnected
      rw [← forall₂_eq_eq_eq, forall₂_map_left_iff]
      refine hconnected.imp fun server result hresult ↦ connectServer_eq_ok ?_
      change (connectServer sha server (listed server)).mapError _ = _ at hresult
      cases hserver : connectServer sha server (listed server) with
      | error _ => simp [hserver, Except.mapError] at hresult
      | ok other =>
        rw [hserver] at hresult
        exact hresult
    have htools : connected.flatMap Prod.snd = (admittedTools servers listed).map (toolOf sha) := by
      simp [← hentries, admittedTools, listedTools, map_flatMap, flatMap_map, connectedServer]
    have hnames : insertEach (fun _ ↦ .ok ()) "duplicate exposed MCP tool: " []
        ((connected.flatMap Prod.snd).map (·.name)) = .ok () := by
      rw [insertEach_eq_ok, htools, map_map]
      exact ⟨fun _ _ ↦ rfl, hnodup, fun _ _ ↦ not_mem_nil⟩
    simp only [bind, Except.bind, hnames]
    rw [htools, ← hentries, map_map]
    exact .inr rfl

theorem nodup_admittedTools (hvalid : validateServers parse servers = .ok ())
    (honce : ∀ server ∈ servers, (listed server).Nodup) :
    (admittedTools servers listed).Nodup := by
  simp only [validateServers, validateServerNames, bind_eq_ok, insertEach_eq_ok] at hvalid
  obtain ⟨-, ⟨-, hnames, -⟩, -⟩ := hvalid
  rw [admittedTools, listedTools, nodup_flatMap]
  refine ⟨fun server hserver ↦ ((honce server hserver).filter _).map fun _ _ h ↦ (Prod.mk.inj h).2,
    (pairwise_map.1 hnames).imp fun hne tool hmem hmem' ↦ ?_⟩
  obtain ⟨_, -, rfl⟩ := mem_map.1 hmem
  obtain ⟨_, -, heq⟩ := mem_map.1 hmem'
  exact hne (Prod.mk.inj heq).1.symm

theorem mem_listedTools_of_admitted {tool : Text × Text}
    (htool : tool ∈ admittedTools servers listed) : tool ∈ listedTools servers listed := by
  simp only [admittedTools, listedTools, mem_flatMap, mem_map, mem_filter] at htool ⊢
  obtain ⟨server, hserver, name, ⟨hname, -⟩, rfl⟩ := htool
  exact ⟨server, hserver, name, hname, rfl⟩

variable (sha) in
theorem exposedName_toolOf (tool : Text × Text) :
    exposedName sha tool.1 tool.2 = some (toolOf sha tool).name := by
  obtain ⟨name, hname, -⟩ := @exposedName_short sha tool.1 tool.2
  rw [toolOf, hname, Option.getD_some]

/-- With a name for each tool a call reaches the tool of the name. -/
theorem call_eq_ok {name : Text} {p : Text × Text}
    (hinj : ∀ p ∈ listedTools servers listed, ∀ q ∈ listedTools servers listed,
      exposedName sha p.1 p.2 = exposedName sha q.1 q.2 → p = q) :
    McpToolSet.call ⟨servers.map fun server ↦ (connectedServer sha listed server).1,
        (admittedTools servers listed).map (toolOf sha)⟩ name = .ok p ↔
      p ∈ admittedTools servers listed ∧ exposedName sha p.1 p.2 = some name := by
  simp only [McpToolSet.call, bind_eq_ok, context_eq_ok, ensure_eq_ok, pure_eq_ok]
  constructor
  · rintro ⟨tool, htool, connection, hconnection, -, -, rfl⟩
    obtain ⟨q, hq, rfl⟩ := mem_map.1 (mem_of_find?_eq_some htool)
    have hserver : connection.server.name = q.1 := of_decide_eq_true (find?_some hconnection :)
    have htoolName : (toolOf sha q).name = name := by simpa using find?_some htool
    have hq' : (connection.server.name, (toolOf sha q).toolName) = q := Prod.ext hserver rfl
    rw [hq']
    exact ⟨hq, (exposedName_toolOf sha q).trans (congrArg some htoolName)⟩
  · rintro ⟨hp, hexposed⟩
    have hpname := Option.some.inj ((exposedName_toolOf sha p).symm.trans hexposed)
    obtain ⟨tool, htool⟩ : ∃ tool, ((admittedTools servers listed).map (toolOf sha)).find?
        (·.name = name) = some tool :=
      Option.isSome_iff_exists.1 (find?_isSome.2 ⟨_, mem_map_of_mem hp, decide_eq_true hpname⟩)
    obtain ⟨q, hq, rfl⟩ := mem_map.1 (mem_of_find?_eq_some htool)
    have hqname : (toolOf sha q).name = name := by simpa using find?_some htool
    obtain rfl : q = p := hinj q (mem_listedTools_of_admitted hq) p
      (mem_listedTools_of_admitted hp) ((exposedName_toolOf sha q).trans
          ((congrArg some hqname).trans hexposed.symm))
    obtain ⟨server, hserver, hlisted⟩ := mem_flatMap.1 hq
    obtain ⟨_, -, rfl⟩ := mem_map.1 hlisted
    obtain ⟨connection, hconnection⟩ : ∃ connection, (servers.map fun server ↦
        (connectedServer sha listed server).1).find? (·.server.name = server.name) =
          some connection :=
      Option.isSome_iff_exists.1 (find?_isSome.2 ⟨_, mem_map_of_mem hserver, decide_eq_true rfl⟩)
    have hopen : connection.isOpen = true := by
      obtain ⟨_, -, rfl⟩ := mem_map.1 (mem_of_find?_eq_some hconnection)
      rfl
    exact ⟨_, htool, connection, hconnection, (), hopen,
      Prod.ext (of_decide_eq_true (find?_some hconnection :)) rfl⟩

end Sets

/-- Exactly when no two tools of the listing clash, every tool has a name of its own, which is short
and plain and cut without a panic; no listing is rejected for a duplicate; the tools are those that
the servers' lists admit; and a call reaches the one that has the name. -/
theorem namesTools_iff (sha : Sha256) (parse : Text → Option Url) (servers : List McpServerConfig)
    (listed : McpServerConfig → List Text) (hvalid : validateServers parse servers = .ok ())
    (honce : ∀ server ∈ servers, (listed server).Nodup)
    (hdigest : ∀ p ∈ listedTools servers listed, ∀ q ∈ listedTools servers listed,
      digits sha p.1 p.2 = digits sha q.1 q.2 → p = q) :
    NamesTools sha servers listed
        (connectWithProvider sha parse (fun server ↦ .ok (listed server)) servers) ↔
      ∀ p ∈ listedTools servers listed, ∀ q ∈ listedTools servers listed, ¬Clash sha p q := by
  constructor
  · intro hnames p hp q hq hclash
    obtain ⟨hne, heq⟩ := exposedName_eq_of_clash hclash
    exact hnames.distinct p hp q hq hne heq
  · intro hclash
    have hinj : ∀ p ∈ listedTools servers listed, ∀ q ∈ listedTools servers listed,
        exposedName sha p.1 p.2 = exposedName sha q.1 q.2 → p = q := by
      intro p hp q hq heq
      rcases clash_of_exposedName_eq (hdigest p hp q hq) heq with heq | hpq | hqp
      · exact heq
      · exact absurd hpq (hclash p hp q hq)
      · exact absurd hqp (hclash q hq p hp)
    have hnodup : ((admittedTools servers listed).map fun tool ↦ (toolOf sha tool).name).Nodup :=
      Nodup.map_on (fun p hp q hq heq ↦ hinj p (mem_listedTools_of_admitted hp) q
        (mem_listedTools_of_admitted hq) ((exposedName_toolOf sha p).trans ((congrArg some heq).trans
          (exposedName_toolOf sha q).symm))) (nodup_admittedTools hvalid honce)
    rcases connectWithProvider_cases hvalid hnodup with ⟨message, hfails⟩ | hset
    · rw [hfails]
      refine ⟨fun p hp q hq hne heq ↦ hne (hinj p hp q hq heq), fun p _ ↦ exposedName_short _ _,
        fun name heq ↦ ?_, nofun, nofun⟩
      have hfirst := congrArg (·.toList.head?) (Except.error.inj heq)
      simp at hfirst
    · rw [hset]
      refine ⟨fun p hp q hq hne heq ↦ hne (hinj p hp q hq heq), fun p _ ↦ exposedName_short _ _,
        nofun, ?_, ?_⟩
      · rintro _ ⟨⟩
        exact map_map.trans (map_id _)
      · rintro _ ⟨⟩ name p
        exact call_eq_ok hinj

/-- The digest of three texts. -/
def testDigest (text : Text) : Text :=
  if text = ['a', Char.ofNat 0, 'ü'] then
    "0f6841b915ecef2bddd1b90e04eedba5a6f0218eaf5a519b66174260a50c51ff".toList
  else if text = ['a', '_', Char.ofNat 0, 'b'] then
    "a00766a378dc8f3415449cea0060f39e93ec7f1093fd8f0f06946f0a0548d10a".toList
  else if text = ['a', Char.ofNat 0, '_', 'b'] then
    "ee647d3be9d65c770c6623d50692f2fad6103ec6b6fb6326126154ff9b9debba".toList
  else replicate 64 '0'

def testSha : Sha256 where
  digest := testDigest
  length_digest text := by
    unfold testDigest
    split_ifs <;> decide
  hex text c hc := by
    have hdigits : (testDigest text).all ("0123456789abcdef".toList.contains ·) = true := by
      unfold testDigest
      split_ifs <;> decide
    simpa using all_eq_true.1 hdigits c hc

def testServer (name : Text) : McpServerConfig := ⟨name, "https://host".toList, none, []⟩

def testParse (_ : Text) : Option Url := some ⟨"https", some "host".toList, [], none, none⟩

/-- One underscore is the end of a server's name or the beginning of a tool's. -/
theorem connect_rejects_underscores : let servers := [testServer ['a', '_'], testServer ['a']]
    let listed (server : McpServerConfig) : List Text :=
      if server.name = ['a'] then [['_', 'b']] else [['b']]
    validateServers testParse servers = .ok () ∧
      exposedName testSha ['a', '_'] ['b'] = exposedName testSha ['a'] ['_', 'b'] ∧
      connectWithProvider testSha testParse (fun server ↦ .ok (listed server)) servers =
        .error "duplicate exposed MCP tool: exo_mcp__a___b" := by
  decide +kernel

theorem namesTools_iff_hashed : NamesTools testSha [testServer ['a']] (fun _ ↦ [['_', 'b'], ['ü']])
      (connectWithProvider testSha testParse (fun _ ↦ .ok [['_', 'b'], ['ü']])
        [testServer ['a']]) :=
  (namesTools_iff testSha testParse [testServer ['a']] (fun _ ↦ [['_', 'b'], ['ü']])
    (by decide +kernel) (by decide) (by decide +kernel)).2 (by
      simp only [Clash]
      decide +kernel)

end Exo.Mcp
