import BlackBull.TrustedProxies

/-!
# Chains of proxies and the client they report

A request comes from an untrusted client through trusted proxies, each of which appends the address
of its own peer to X-Forwarded-For. The client may have sent lines of that field too. For which of
them is the address on the connection the client's own?
-/

namespace BlackBull.Proxy

open ByteString HeadParser

/-- How a proxy appends an address: to the combined value, or in a line of its own. -/
inductive Appending
  | combined | separate
deriving DecidableEq

structure Hop where
  address : Bytes
  appending : Appending

def combine (lines : List Bytes) : Bytes := List.intercalate (ascii ", ") lines

/-- The lines of X-Forwarded-For a proxy sends on, given those it received and its peer. -/
def Hop.forward (hop : Hop) (lines : List Bytes) (peer : Bytes) : List Bytes :=
  match hop.appending with
  | .combined => [combine (lines++[peer])]
  | .separate => lines++[peer]

def received (lines : List Bytes) (peer : Bytes) : List Hop → List Bytes
  | [] => lines
  | hop::hops => received (hop.forward lines peer) hop.address hops

/-- The text of an address: visible ASCII without a comma. -/
structure IsAddress (text : Bytes) : Prop where
  nonempty : text≠[]
  visible : ∀ b∈text,33≤b ∧ b≤126
  comma : 44∉text

/-- A client that is not trusted, behind proxies that all are. -/
structure Chain (trusted : Bytes → Bool) where
  client : Bytes
  hops : List Hop
  nonempty : hops≠[]
  clientAddress : IsAddress client
  clientUntrusted : trusted client=false
  hopAddress : ∀ hop∈hops,IsAddress hop.address
  hopTrusted : ∀ hop∈hops,trusted hop.address=true

def Chain.last {trusted : Bytes → Bool} (chain : Chain trusted) : Bytes :=
  (chain.hops.getLast chain.nonempty).address

theorem dropFront_of_none {p : List Bytes} {t : Bytes}
    (h : p.find? (·.isPrefixOf t)=none) (k : ℕ) : dropFront p k t=t := by
  cases k with
  | zero => rfl
  | succ k => rw [dropFront,h]

theorem lstripText_space (t : Bytes) : lstripText (32::t)=lstripText t := by
  have hf : spaces.find? (·.isPrefixOf (32::t))=some [32] := rfl
  rw [lstripText,List.length_cons,dropFront,hf]
  rfl

theorem stripText_space (t : Bytes) : stripText (32::t)=stripText t := by
  rw [stripText,lstripText_space,stripText]

/-- No white space begins, or ends, with a visible octet. -/
theorem find?_spaces_visible {b : UInt8} (hb : 33≤b ∧ b≤126) (r : Bytes) :
    spaces.find? (·.isPrefixOf (b::r))=none ∧
      (spaces.map List.reverse).find? (·.isPrefixOf (b::r))=none := by
  have hc : ∀ s∈spaces++spaces.map List.reverse,
      ∃ a tail,s=a::tail ∧ ¬ (33≤a ∧ a≤126) := by
    have ha : (spaces++spaces.map List.reverse).all
        (fun s => s.head?.any fun a => !(33≤a && a≤126))=true := by
      decide
    intro s hs
    have hf := List.all_eq_true.mp ha s hs
    cases s with
    | nil => cases hf
    | cons a tail =>
      refine ⟨a,tail,rfl,fun hv => ?_⟩
      simp [hv.1,hv.2] at hf
  have hn (s : Bytes) (hs : s∈spaces++spaces.map List.reverse) : ¬ s.isPrefixOf (b::r)=true := by
    obtain ⟨a,tail,rfl,hf⟩ := hc s hs
    intro hfr
    rw [List.isPrefixOf,Bool.and_eq_true] at hfr
    exact hf (eq_of_beq hfr.1 ▸ hb)
  rw [List.find?_eq_none,List.find?_eq_none]
  exact ⟨fun s hs => hn s (List.mem_append_left _ hs),fun s hs => hn s (List.mem_append_right _ hs)⟩

theorem stripText_address {t : Bytes} (h : IsAddress t) : stripText t=t := by
  obtain ⟨b,rest,rfl⟩ := List.exists_cons_of_ne_nil h.nonempty
  have hf : lstripText (b::rest)=b::rest :=
    dropFront_of_none (find?_spaces_visible (h.visible b List.mem_cons_self) rest).1 _
  rw [stripText,hf,rstripText]
  obtain ⟨c,bk,hr⟩ := List.exists_cons_of_ne_nil (List.reverse_ne_nil_iff.mpr h.nonempty)
  have hc : c∈b::rest := List.mem_reverse.mp (hr ▸ List.mem_cons_self)
  rw [hr,dropFront_of_none (find?_spaces_visible (h.visible c hc) bk).2,← hr,List.reverse_reverse]

theorem entries_append (t r : Bytes) : entries (t++44::32::r)=entries t++entries r := by
  rw [entries,splitByte_append_cons,List.map_append,entries,entries]
  congr 1
  rw [splitByte]
  cases hp : splitByte 44 r with
  | nil => exact absurd hp (splitByte_ne_nil 44 r)
  | cons p pi =>
    dsimp only
    rw [if_neg (by decide),List.map_cons,List.map_cons,stripText_space]

theorem entries_address {t : Bytes} (h : IsAddress t) : entries t=[t] := by
  rw [entries,splitByte_of_notMem 44 t h.comma,List.map_singleton,stripText_address h]

theorem isUtf8_address {t : Bytes} (h : IsAddress t) : isUtf8 t=true := by
  have hv := h.visible
  clear h
  induction t with
  | nil => rfl
  | cons b t ih =>
    have hb : b<128 := UInt8.lt_of_le_of_lt (hv b List.mem_cons_self).2 (by decide)
    have hco := isUtf8_append_cons hb [] t
    rw [List.nil_append] at hco
    rw [hco,ih fun c hc => hv c (List.mem_cons_of_mem b hc)]
    rfl

variable {lines supplied : List Bytes} {client : Bytes}

theorem combine_cons {l : Bytes} (h : lines≠[]) : combine (l::lines)=l++44::32::combine lines := by
  obtain ⟨next,rest,rfl⟩ := List.exists_cons_of_ne_nil h
  rw [combine,List.intercalate_cons_cons,List.append_assoc]
  rfl

theorem entries_combine (h : lines≠[]) : entries (combine lines)=lines.flatMap entries := by
  induction lines with
  | nil => exact absurd rfl h
  | cons line lines ih =>
    by_cases hl : lines=[]
    · subst hl
      simp [combine]
    · rw [combine_cons hl,entries_append,ih hl,List.flatMap_cons]

theorem isUtf8_combine (h : lines≠[]) : isUtf8 (combine lines)=lines.all isUtf8 := by
  induction lines with
  | nil => exact absurd rfl h
  | cons line lines ih =>
    by_cases hl : lines=[]
    · subst hl
      simp [combine]
    · have hs := isUtf8_append_cons (b := 32) (by decide) [] (combine lines)
      rw [combine_cons hl,isUtf8_append_cons (by decide),List.all_cons,← ih hl,
        ← List.nil_append (32::combine lines),hs]
      rfl

/-- The lines behind some proxies: the entries are those the client sent, its address and more. The
first line has them all if a proxy has combined the lines or the client sent none, and is the
client's first line otherwise. -/
structure Carried (supplied : List Bytes) (client : Bytes) (whole : Prop) (lines : List Bytes) :
    Prop where
  all : ∃ rest,lines.flatMap entries=supplied.flatMap entries++client::rest
  utf8 : lines.all isUtf8=supplied.all isUtf8
  first : ∃ line more,lines=line::more ∧
    (whole → (∃ rest,entries line=supplied.flatMap entries++client::rest) ∧
      isUtf8 line=supplied.all isUtf8) ∧
    (¬ whole → supplied.head? = some line)

theorem carried_forward (h : IsAddress client) (hop : Hop) :
    Carried supplied client (hop.appending=.combined ∨ supplied=[])
      (hop.forward supplied client) := by
  have hne : supplied++[client]≠[] := by simp
  have ha : (supplied++[client]).flatMap entries=supplied.flatMap entries++[client] := by
    simp [entries_address h]
  have hu : (supplied++[client]).all isUtf8=supplied.all isUtf8 := by simp [isUtf8_address h]
  unfold Hop.forward
  cases hop.appending with
  | combined =>
    have hl : entries (combine (supplied++[client]))=supplied.flatMap entries++[client] := by
      rw [entries_combine hne,ha]
    have hd : isUtf8 (combine (supplied++[client]))=supplied.all isUtf8 := by
      rw [isUtf8_combine hne,hu]
    refine ⟨⟨[],by simp [hl]⟩,by simp [hd],_,_,rfl,fun _ => ⟨⟨_,hl⟩,hd⟩,?_⟩
    intro hn
    exact absurd (.inl rfl) hn
  | separate =>
    refine ⟨⟨[],ha⟩,hu,?_⟩
    cases supplied with
    | nil => simp_all
    | cons line lines =>
      refine ⟨line,lines++[client],rfl,?_,fun _ => rfl⟩
      rintro (h | h) <;> cases h

theorem Carried.forward {p : Bytes} {w : Prop} (h : Carried supplied client w lines)
    (hp : IsAddress p) (hop : Hop) :
    Carried supplied client (w ∨ hop.appending=.combined) (hop.forward lines p) := by
  obtain ⟨rest,hr⟩ := h.all
  obtain ⟨line,m,rfl,hw,hpa⟩ := h.first
  have hne : line::m++[p]≠[] := by simp
  have ha : (line::m++[p]).flatMap entries = supplied.flatMap entries++client::(rest++[p]) := by
    rw [List.flatMap_append,hr]
    simp [entries_address hp]
  have hu : (line::m++[p]).all isUtf8=supplied.all isUtf8 := by
    rw [List.all_append,h.utf8]
    simp [isUtf8_address hp]
  unfold Hop.forward
  cases hop.appending with
  | combined =>
    have hl := entries_combine hne
    rw [ha] at hl
    have hd := isUtf8_combine hne
    rw [hu] at hd
    refine ⟨⟨_,by rw [List.flatMap_singleton,hl]⟩,by simpa using hd,_,_,rfl,fun _ => ⟨⟨_,hl⟩,hd⟩,?_⟩
    intro hn
    exact absurd (.inr rfl) hn
  | separate =>
    refine ⟨⟨_,ha⟩,hu,line,m++[p],rfl,?_,?_⟩
    · rintro (h | h)
      · exact hw h
      · cases h
    · intro hn
      exact hpa fun h => hn (.inl h)

theorem Carried.received {p : Bytes} {w : Prop} (h : Carried supplied client w lines)
    (hp : IsAddress p) {hops : List Hop} (hh : ∀ hop∈hops,IsAddress hop.address) :
    Carried supplied client (w ∨ ∃ hop∈hops,hop.appending=.combined)
      (received lines p hops) := by
  induction hops generalizing lines p w with
  | nil => simpa [Proxy.received] using h
  | cons hop hops ih =>
    have hn := ih (h.forward hp hop) (hh hop List.mem_cons_self)
      fun l hl => hh l (List.mem_cons_of_mem hop hl)
    simpa [Proxy.received,or_assoc] using hn

theorem Chain.carried {t : Bytes → Bool} (c : Chain t) (supplied : List Bytes) :
    Carried supplied c.client (supplied=[] ∨ ∃ hop∈c.hops,hop.appending=.combined)
      (received supplied c.client c.hops) := by
  obtain ⟨hop,hops,hh⟩ := List.exists_cons_of_ne_nil c.nonempty
  have ha := c.hopAddress
  rw [hh] at ha ⊢
  have hf : Carried supplied c.client _ _ := carried_forward c.clientAddress hop
  have hn := hf.received (ha hop List.mem_cons_self) fun l hl => ha l (List.mem_cons_of_mem hop hl)
  simpa [received,or_comm,or_left_comm,or_assoc] using hn

section

variable {Address Network : Type} (lib : Library Address Network) (networks : List Network)

/-- The lines the client sent leave its own address on the connection: where a proxy combines the
lines they are UTF-8 and their first entry that is not trusted, if there is one, is the client's
address; where none does, this entry of the first line is there and is that address. -/
structure Harmless (chain : Chain (isTrusted lib networks)) (supplied : List Bytes) : Prop where
  combined : (∃ hop∈chain.hops,hop.appending=.combined) → supplied.all isUtf8=true ∧
    ∀ address∈firstUntrusted lib networks (supplied.flatMap entries),address=chain.client
  separate : (¬ ∃ hop∈chain.hops,hop.appending=.combined) → ∀ line∈supplied.head?,
    isUtf8 line=true ∧ firstUntrusted lib networks (entries line)=some chain.client

/-- A request that comes through the chain, with these lines from the client and without a
Forwarded field. -/
structure Arrives (chain : Chain (isTrusted lib networks)) (supplied : List Bytes) (conn : Conn) :
    Prop where
  type : conn.type≠.other
  peer : conn.clientIp=chain.last
  forwarded : conn.headers.getlist (ascii "forwarded")=[]
  lines : (conn.headers.getlist (ascii "x-forwarded-for")).map Prod.snd =
    received supplied chain.client chain.hops

variable {lib networks}

theorem firstUntrusted_append_cons {f r : List Bytes} {client : Bytes}
    (h : isTrusted lib networks client=false) :
    firstUntrusted lib networks (f++client::r) =
      some ((firstUntrusted lib networks f).getD client) := by
  rw [firstUntrusted,List.find?_append,List.find?_cons_of_pos (by simp [h]),firstUntrusted]
  cases f.find? fun c => !isTrusted lib networks c <;> rfl

theorem get_of_getlist {hs : Headers} {n : Bytes} {l : Bytes}
    {m : List Bytes} (h : (hs.getlist n).map Prod.snd=l::m) : hs.get n []=l := by
  unfold Headers.get
  cases hl : hs.getlist n with
  | nil => simp [hl] at h
  | cons p ps =>
    rw [hl,List.map_cons] at h
    exact (List.cons.inj h).1

/-- Behind a trusted peer and without a Forwarded field, the walk along the first line of
X-Forwarded-For gives the address, if the headers are UTF-8. -/
theorem trustedProxy_client {conn : Conn} (ht : conn.type≠.other) (htr : isTrusted lib networks
    conn.clientIp=true) (hf : conn.headers.getlist (ascii "forwarded")=[]) (address : Bytes) :
    (∃ conn',trustedProxy lib networks conn=.ok conn' ∧ conn'.clientIp=address) ↔
      isUtf8 (conn.headers.get (ascii "x-forwarded-proto") [])=true ∧
      isUtf8 (conn.headers.get (ascii "x-forwarded-prefix") [])=true ∧
      isUtf8 (conn.headers.get (ascii "x-forwarded-for") [])=true ∧
      (if (conn.headers.get (ascii "x-forwarded-for") []).isEmpty then none
        else firstUntrusted lib networks
          (entries (conn.headers.get (ascii "x-forwarded-for") []))).getD conn.clientIp =
        address := by
  have he : conn.headers.get (ascii "forwarded") []=[] := by rw [Headers.get,hf]
  unfold trustedProxy forwardedOrigin
  rw [if_neg ht,htr,he]
  generalize conn.headers.get (ascii "x-forwarded-for") []=xff
  generalize conn.headers.get (ascii "x-forwarded-proto") []=xfp
  generalize conn.headers.get (ascii "x-forwarded-prefix") []=mount
  by_cases hx : isUtf8 xff=true
  · by_cases hxf : isUtf8 xfp=true
    · by_cases hm : isUtf8 mount=true
      · have hn : isUtf8 []=true := rfl
        simp only [decode,hx,hxf,hm,hn,bind,Except.bind,pure,Except.pure,if_true,
          List.isEmpty_nil,Bool.not_true,Bool.false_eq_true,if_false,Except.ok.injEq,
          exists_eq_left',Conn.clientIp,true_and]
        cases (if xff.isEmpty then none else firstUntrusted lib networks (entries xff)) <;> rfl
      · simp [decode,hx,hxf,hm,bind,Except.bind,pure,Except.pure,isUtf8]
    · simp [decode,hx,hxf,bind,Except.bind,isUtf8]
  · simp [decode,hx,bind,Except.bind,isUtf8]

theorem isEmpty_of_mem_entries {client l : Bytes} (h : IsAddress client)
    (hm : client∈entries l) : l.isEmpty=false := by
  cases l with
  | nil => exact absurd (List.mem_singleton.mp hm) h.nonempty
  | cons b rest => rfl

/-- The address on the connection is the client's own exactly when the lines it sent are harmless
and the other headers are UTF-8; behind a peer that is not trusted nothing changes. -/
theorem forwarded_client_iff (lib : Library Address Network) (networks : List Network)
    (conn : Conn) :
    (isTrusted lib networks conn.clientIp=false → trustedProxy lib networks conn=.ok conn) ∧
    ∀ (chain : Chain (isTrusted lib networks)) (supplied : List Bytes),
      Arrives lib networks chain supplied conn →
      ((∃ conn',trustedProxy lib networks conn=.ok conn' ∧ conn'.clientIp=chain.client) ↔
        isUtf8 (conn.headers.get (ascii "x-forwarded-proto") [])=true ∧
        isUtf8 (conn.headers.get (ascii "x-forwarded-prefix") [])=true ∧
        Harmless lib networks chain supplied) := by
  constructor
  · intro hu
    unfold trustedProxy
    split_ifs with ht hp
    · rfl
    · rfl
    · simp [hu] at hp
  · intro chain supplied h
    have hl : isTrusted lib networks chain.last=true :=
      chain.hopTrusted _ (List.getLast_mem chain.nonempty)
    have hd : chain.last≠chain.client := by
      intro heq
      rw [heq,chain.clientUntrusted] at hl
      cases hl
    rw [trustedProxy_client h.type (h.peer ▸ hl) h.forwarded,h.peer]
    refine and_congr_right fun _ => and_congr_right fun _ => ?_
    obtain ⟨line,more,hli,hw,hpa⟩ := (chain.carried supplied).first
    rw [get_of_getlist (h.lines.trans hli)]
    by_cases hj : supplied=[] ∨ ∃ hop∈chain.hops,hop.appending=.combined
    · obtain ⟨⟨rest,he⟩,hde⟩ := hw hj
      have hlin : line.isEmpty=false := isEmpty_of_mem_entries chain.clientAddress (he ▸ by simp)
      rw [hlin,if_neg Bool.false_ne_true,he,
        firstUntrusted_append_cons chain.clientUntrusted,hde,Option.getD_some]
      constructor
      · rintro ⟨hut,hf⟩
        refine ⟨fun _ => ⟨hut,fun address ha => ?_⟩,fun hap sent hs => ?_⟩
        · rwa [ha] at hf
        · obtain rfl := hj.resolve_right hap
          cases hs
      · intro hh
        rcases hj with rfl | hc
        · exact ⟨rfl,rfl⟩
        · obtain ⟨hut,hf⟩ := hh.combined hc
          refine ⟨hut,?_⟩
          cases hfi : firstUntrusted lib networks (supplied.flatMap entries) with
          | none => rfl
          | some address => exact hf address hfi
    · have hap : ¬ ∃ hop∈chain.hops,hop.appending=.combined := fun h => hj (.inr h)
      constructor
      · rintro ⟨hut,hf⟩
        refine ⟨fun hc => absurd hc hap,fun _ sent hs => ?_⟩
        obtain rfl := Option.some.inj ((hpa hj).symm.trans hs)
        refine ⟨hut,?_⟩
        split_ifs at hf
        · exact absurd hf hd
        · cases hfi : firstUntrusted lib networks (entries line) with
          | none =>
            rw [hfi] at hf
            exact absurd hf hd
          | some address =>
            rw [hfi] at hf
            rw [← hf]
            rfl
      · intro hh
        obtain ⟨hut,hf⟩ := hh.separate hap line (hpa hj)
        have hlin : line.isEmpty=false :=
          isEmpty_of_mem_entries chain.clientAddress (List.mem_of_find?_eq_some hf)
        rw [hlin,if_neg Bool.false_ne_true,hf]
        exact ⟨hut,rfl⟩

end

def quadOctet (text : Bytes) : Option ℕ :=
  if isdigit text && text.length≤3 && !(startsWith text [48] && text.length≠1) then
    let value := ofDigits 10 text
    if value≤255 then some value else none
  else none

def ipv4Address (text : Bytes) : Option ℕ :=
  match (splitByte 46 text).mapM quadOctet with
  | some [a,b,c,d] => some (((a*256+b)*256+c)*256+d)
  | _ => none

/-- A network is its first address and the length of its mask. -/
def ipv4 : Library ℕ (ℕ × ℕ) where
  ipAddress := ipv4Address
  contains := fun (base,length) address => address / 2^(32 - length) = base / 2^(32 - length)
  lower := lower

def proxyNetworks : List (ℕ × ℕ) := [(10*2^24,8)]

theorem isAddress_proxy : IsAddress (ascii "10.0.0.1") :=
  ⟨by decide +kernel,by decide +kernel,by decide +kernel⟩

theorem isTrusted_proxy : isTrusted ipv4 proxyNetworks (ascii "10.0.0.1")=true := by decide +kernel

def oneProxy (appending : Appending) : Chain (isTrusted ipv4 proxyNetworks) where
  client := ascii "203.0.113.5"
  hops := [⟨ascii "10.0.0.1",appending⟩]
  nonempty := List.cons_ne_nil _ _
  clientAddress := ⟨by decide +kernel,by decide +kernel,by decide +kernel⟩
  clientUntrusted := by decide +kernel
  hopAddress := List.forall_mem_singleton.mpr isAddress_proxy
  hopTrusted := List.forall_mem_singleton.mpr isTrusted_proxy

def behindProxy (lines : List Bytes) : Conn where
  type := .http
  client := some (ascii "10.0.0.1",40000)
  headers := Headers.ofPairs (lines.map (ascii "x-forwarded-for",·))
  scheme := ascii "http"
  rootPath := []

/-- The client sends the address of a trusted host. -/
theorem forwarded_client_trustedEntry :
    Harmless ipv4 proxyNetworks (oneProxy .combined) [ascii "10.0.0.7"] ∧
      ∃ conn,trustedProxy ipv4 proxyNetworks
          (behindProxy [ascii "10.0.0.7, 203.0.113.5"])=.ok conn ∧
        conn.clientIp=ascii "203.0.113.5" := by
  have hh : Harmless ipv4 proxyNetworks (oneProxy .combined) [ascii "10.0.0.7"] :=
    ⟨by decide +kernel,fun hn => absurd ⟨_,List.mem_cons_self,rfl⟩ hn⟩
  refine ⟨hh,?_⟩
  have hi := (forwarded_client_iff ipv4 proxyNetworks
    (behindProxy [ascii "10.0.0.7, 203.0.113.5"])).2 (oneProxy .combined) [ascii "10.0.0.7"]
    ⟨by decide +kernel,rfl,by decide +kernel,by decide +kernel⟩
  exact hi.mpr ⟨by decide +kernel,by decide +kernel,hh⟩

/-- The client chooses its address: the walk ends at the entry it sent. Where the proxy appends a
line of its own, only the client's line is read. -/
theorem forwarded_client_spoofed :
    (Arrives ipv4 proxyNetworks (oneProxy .combined) [ascii "198.51.100.9"]
        (behindProxy [ascii "198.51.100.9, 203.0.113.5"]) ∧
      ∃ conn,trustedProxy ipv4 proxyNetworks
          (behindProxy [ascii "198.51.100.9, 203.0.113.5"])=.ok conn ∧
        conn.clientIp=ascii "198.51.100.9") ∧
    Arrives ipv4 proxyNetworks (oneProxy .separate) [ascii "10.0.0.7"]
        (behindProxy [ascii "10.0.0.7",ascii "203.0.113.5"]) ∧
      ∃ conn,trustedProxy ipv4 proxyNetworks
          (behindProxy [ascii "10.0.0.7",ascii "203.0.113.5"])=.ok conn ∧
        conn.clientIp=ascii "10.0.0.1" :=
  ⟨⟨⟨by decide +kernel,rfl,by decide +kernel,by decide +kernel⟩,_,rfl,by decide +kernel⟩,
    ⟨by decide +kernel,rfl,by decide +kernel,by decide +kernel⟩,_,rfl,by decide +kernel⟩

end BlackBull.Proxy
