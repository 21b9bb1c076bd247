import BlackBull.MessageReception

/-!
# Compressed messages and final blocks

A message may be compressed with any DEFLATE blocks. A `zlib.decompressobj` ends with the
first final block: what comes after it, in this message or a later one, is not inflated.
-/

namespace BlackBull.WebSocket.Inflation

structure Block where
  final : Bool
  content : Bytes

def contents (blocks : List Block) : Bytes := (blocks.map Block.content).flatten

/-- The blocks up to the first final one. -/
def upToFinal : List Block → List Block
  | [] => []
  | block::blocks => if block.final then [block] else block::upToFinal blocks

/-- The blocks that an input holds, after the octets of the window. -/
abbrev Deflate := Bytes → Bytes → Option (List Block)

/-- `zlib.decompressobj`: `none` is the end of its stream, and more input goes to `unused_data`. -/
def zlibObject (deflate : Deflate) : Inflater (Option Bytes) where
  initial := some []
  inflate
    | none,_ => ([],some none)
    | some window,input =>
      match deflate window input with
      | none => ([],none)
      | some blocks => (contents (upToFinal blocks),
          some (if blocks.any Block.final then none else some (window++contents blocks)))

/-- A message of the peer, the frames it is sent in, and their blocks if it is compressed. -/
structure Offer where
  message : Message
  group : List Frame
  blocks : List Block

/-- What the frames hold, inflated if it is compressed. -/
def Offer.octets (offer : Offer) : Bytes :=
  if isCompressed offer.group then contents offer.blocks else joined offer.group

section

variable (config : Config) (deflate : Deflate)

/-- The blocks that the object of the next message has been given. -/
def past (offers : List Offer) : List Block :=
  if config.resetPerMessage then [] else offers.flatMap Offer.blocks

/-- The frames hold the message as it is, or compressed as RFC 7692 allows. -/
structure Offer.Holds (window : Bytes) (offer : Offer) : Prop where
  message : messageOf offer.group offer.octets=some offer.message
  blocks : if isCompressed offer.group then
    deflate window (joined offer.group++deflateTail)=some offer.blocks else offer.blocks=[]

/-- The frames of a peer that sends these messages, with nothing wrong but what they hold. -/
structure Conversation (meter : RateWindow) (clock : ℕ → ℕ) (frames : List Frame)
    (offers : List Offer) : Prop where
  proper : ∀ before f,before++[f] <+: frames → f.opcode≠.close ∧
    ∀ v,Violates config (zlibObject deflate) meter clock before f v →
      v∈[.messageTooBig,.fragmentsTooBig,.corruptData,.invalidUtf8]
  groups : (transcript frames).messages=offers.map Offer.group
  complete : (transcript frames).fragments=[]
  holds : ∀ before offer,before++[offer] <+: offers →
    offer.Holds deflate (contents (past config before))

/-- Of the blocks one object is given none has content behind a final one, and no message in
several frames is over the bound by what is on the wire alone. -/
structure Unfinished (offers : List Offer) : Prop where
  blocks : ∀ before offer,before++[offer] <+: offers →
    (past config before++offer.blocks).Pairwise fun a b => a.final=true → b.content=[]
  fragments : ∀ offer∈offers,2≤offer.group.length →
    overSize config (joined offer.group).length=true → overSize config offer.message.size=true

def fits (message : Message) : Bool := !overSize config message.size

end

@[simp] theorem contents_append (a b : List Block) : contents (a++b)=contents a++contents b := by
  simp [contents]

/-- The state of an object that has been given blocks. -/
def given (blocks : List Block) : Option Bytes :=
  if blocks.any Block.final then none else some (contents blocks)

variable {cfg : Config} {df : Deflate} {off : Offer} {o : List Offer}

theorem contents_upToFinal {b : List Block}
    (h : b.Pairwise fun a b => a.final=true → b.content=[]) :
    contents (upToFinal b)=contents b := by
  induction b with
  | nil => rfl
  | cons x b ih =>
    rw [List.pairwise_cons] at h
    unfold upToFinal
    split_ifs with hf
    · simpa [contents] using fun y hy => h.1 y hy hf
    · simpa [contents] using ih h.2

theorem inflated_given {p : List Block} (hh : off.Holds df (contents p))
    (h : (p++off.blocks).Pairwise fun a b => a.final=true → b.content=[]) :
    inflated (zlibObject df) (given p) off.group=(off.octets,some (given (p++off.blocks))) := by
  obtain ⟨-,hb,hp⟩ := List.pairwise_append.mp h
  have hb := contents_upToFinal hb
  have hp (hf : p.any Block.final=true) : contents off.blocks=[] := by
    obtain ⟨x,hx,hf⟩ := List.any_eq_true.mp hf
    simpa [contents] using fun y hy => hp x hx y hy hf
  have hd := hh.blocks
  unfold inflated Offer.octets
  split_ifs at hd ⊢
  · cases he : p.any Block.final with
    | true => simp [given,zlibObject,he,hp he]
    | false => simp [given,zlibObject,he,hd,hb]
  · simp [hd]

/-- The object has been given the blocks of the messages, and they are the peer's. -/
theorem sent_offers (hh : ∀ b x,b++[x] <+: o → x.Holds df (contents (past cfg b)))
    (hu : Unfinished cfg o) {os : List Offer} (hp : os <+: o) :
    stateOf cfg (zlibObject df) (os.map Offer.group)=given (past cfg os) ∧
      sent cfg (zlibObject df) (zlibObject df).initial (os.map Offer.group) =
        os.map Offer.message := by
  induction os using List.reverseRecOn with
  | nil => exact ⟨by simp [stateOf,zlibObject,given,past,contents],rfl⟩
  | append_singleton os off ih =>
    obtain ⟨hs,hm⟩ := ih ((List.prefix_append ..).trans hp)
    have hh := hh os off hp
    have hi := inflated_given hh (hu.blocks os off hp)
    rw [List.map_append,List.map_singleton,stateOf_concat,sent_concat,← stateOf,hs,hm,hi]
    refine ⟨?_,by simp [hh.message]⟩
    have hd := hh.blocks
    rw [stateAfter,hi]
    split_ifs at hd ⊢
    · simp_all [past,zlibObject,given,contents]
    · simp_all [past]
    · simp [past,hd]

theorem next_group (l : List Frame) (t : Transcript)
    (h : (l.foldl Transcript.add t).fragments=[]) :
    ∃ more,(l.foldl Transcript.add t).messages=t.messages++more ∧
      (t.fragments≠[] → ∃ g rest,g≠[] ∧ more=(t.fragments++g)::rest) := by
  induction l generalizing t with
  | nil => exact ⟨[],(List.append_nil _).symm,fun hn => absurd h hn⟩
  | cons f l ih =>
    obtain ⟨more,hm,hn⟩ := ih (t.add f) h
    rw [List.foldl_cons,hm]
    unfold Transcript.add at hn ⊢
    split_ifs at hn ⊢
    · exact ⟨more,rfl,hn⟩
    · exact ⟨_,List.append_assoc ..,fun _ => ⟨[f],more,by simp,rfl⟩⟩
    · obtain ⟨g,rest,-,rfl⟩ := hn (by simp)
      exact ⟨_,rfl,fun _ => ⟨f::g,rest,by simp,by simp⟩⟩

theorem group_of_frame {before after : List Frame} {f : Frame} (hd : f.opcode.isData=true)
    (h : (transcript (before++f::after)).fragments=[]) :
    ∃ g rest,(transcript (before++f::after)).messages =
        (transcript before).messages++(groupOf before f++g)::rest ∧ (f.fin=true ↔ g=[]) := by
  unfold transcript at h ⊢
  rw [List.foldl_append,List.foldl_cons] at h ⊢
  obtain ⟨more,hm,hn⟩ := next_group after _ h
  rw [hm]
  cases hf : f.fin with
  | true => exact ⟨[],more,by simp [Transcript.add,hd,hf,groupOf,transcript],by simp⟩
  | false =>
    obtain ⟨g,rest,hg,rfl⟩ := hn (by simp [Transcript.add,hd,hf])
    exact ⟨g,rest,by simp [Transcript.add,hd,hf,groupOf,transcript],by simp [hg]⟩

theorem overSize_mono {n k : ℕ} (h : overSize cfg n=true) (hk : n≤k) : overSize cfg k=true := by
  simp only [overSize,Bool.and_eq_true,decide_eq_true_eq] at h ⊢
  exact ⟨h.1,h.2.trans_le hk⟩

section

variable {meter : RateWindow} {clock : ℕ → ℕ} {before after : List Frame} {f : Frame}

theorem fits_of_clean (h : Clean cfg (zlibObject df) meter clock before) :
    ∀ m∈sentMessages cfg (zlibObject df) before,fits cfg m=true := by
  intro m hm
  by_cases hb : cfg.maxMessageSize=0
  · simp [fits,overSize,hb]
  · simpa [fits,overSize,hb] using size_le_of_clean hb h m hm

/-- The frame at which something is wrong is one of a message over the bound. -/
theorem over_of_violates (hco : Conversation cfg df meter clock (before++f::after) o)
    (hu : Unfinished cfg o) {v : Violation}
    (hv : Violates cfg (zlibObject df) meter clock before f v) :
    ∃ os off more,o=os++off::more ∧ v.closeCode=1009 ∧ fits cfg off.message=false ∧
      sentMessages cfg (zlibObject df) before=os.map Offer.message := by
  have hm := (hco.proper before f ⟨after,by simp⟩).2 v hv
  simp only [List.mem_cons,List.not_mem_nil,or_false] at hm
  have hd : f.opcode.isData=true := by rcases hm with rfl | rfl | rfl | rfl <;> exact hv.1
  obtain ⟨g,rest,hg,hf⟩ := group_of_frame hd hco.complete
  obtain ⟨os,tail,rfl,hos,ht⟩ := List.map_eq_append_iff.mp (hco.groups.symm.trans hg)
  obtain ⟨off,more,rfl,hg,-⟩ := List.map_eq_cons_iff.mp ht
  have hp : os++[off] <+: os++off::more := ⟨more,by simp⟩
  have hh := hco.holds os off hp
  obtain ⟨hs,hse⟩ := sent_offers hco.holds hu (List.prefix_append os (off::more))
  rw [hos] at hs hse
  have hz : isCompressed off.group=isCompressed (groupOf before f) := by
    rw [hg,groupOf]
    cases (transcript before).fragments <;> rfl
  have hj : (joined (groupOf before f)).length≤(joined off.group).length := by
    simp [hg,joined]
  have hc (hfi : f.fin=true) : groupOf before f=off.group ∧
      contentOf cfg (zlibObject df) before f =
        (off.octets,some (given (past cfg os++off.blocks))) := by
    rw [hf.mp hfi,List.append_nil] at hg
    rw [contentOf,← hg,hs]
    exact ⟨rfl,inflated_given hh (hu.blocks os off hp)⟩
  have hsi := size_of_messageOf hh.message
  suffices h : v.closeCode=1009 ∧ overSize cfg off.message.size=true from
    ⟨os,off,more,rfl,h.1,by simp [fits,h.2],hse⟩
  rcases hm with rfl | rfl | rfl | rfl
  · refine ⟨rfl,?_⟩
    obtain ⟨-,hv⟩ := hv
    rw [hsi]
    split_ifs at hv with hcm
    · rw [(hc hv.1).2] at hv
      exact hv.2
    · rw [Offer.octets,if_neg (hz ▸ hcm)]
      exact overSize_mono hv hj
  · obtain ⟨-,-,hn,hv⟩ := hv
    refine ⟨rfl,hu.fragments off (by simp) ?_ (overSize_mono hv hj)⟩
    have hl : 0<(groupOf before f).length := by simp [groupOf]
    rw [hg,List.length_append]
    rcases hn with hn | hn
    · omega
    · have := List.length_pos_iff.mpr (mt hf.mpr (by simp [hn]))
      omega
  · obtain ⟨-,hfi,hv⟩ := hv
    simp [(hc hfi).2] at hv
  · obtain ⟨-,hfi,hk,hv⟩ := hv
    have hme := hh.message
    rw [(hc hfi).2] at hv
    rw [(hc hfi).1] at hk
    simp [messageOf,hk,hv] at hme

end

theorem size_of_refused {w : Option Bytes} {p : Bytes} {size bound : ℕ}
    (h : decompress cfg (zlibObject df) w p=.error (.messageTooLarge size bound)) :
    size=cfg.maxMessageSize+1 := by
  simp only [decompress] at h
  split at h
  · cases h
    rfl
  · split at h <;> cases h

/-- Each message the application is given is the peer's, in order and up to the first one over the
bound, which is refused with 1009; no more than one octet past the bound is inflated of it. -/
theorem messages_inflated (config : Config) (deflate : Deflate) (meter : RateWindow)
    (clock : ℕ → ℕ) (frames : List Frame) (offers : List Offer) (turns : ℕ)
    (hturns : 4*frames.length+1≤turns)
    (hconv : Conversation config deflate meter clock frames offers)
    (hunf : Unfinished config offers) :
    let r := received config (zlibObject deflate) meter clock frames false turns
    r.messages=(offers.map Offer.message).takeWhile (fits config) ∧
      r.terminalCode =
        (if (offers.map Offer.message).all (fits config) then none else some 1009) ∧
      ∀ state payload size bound,decompress config (zlibObject deflate) state payload =
        .error (.messageTooLarge size bound) → size=config.maxMessageSize+1 := by
  intro r
  rw [← and_assoc]
  refine ⟨?_,fun _ _ _ _ => size_of_refused⟩
  rcases @clean_or_first _ config (zlibObject deflate) meter clock frames with
    hc | ⟨before,f,after,rfl,hc,hb⟩
  · obtain ⟨hm,-,-,ht⟩ := received_clean false hc hturns
    have hf := fits_of_clean hc
    rw [sentMessages,hconv.groups,(sent_offers hconv.holds hunf List.prefix_rfl).2] at hm hf
    rw [hm,ht,if_pos (List.all_eq_true.mpr hf)]
    exact ⟨(List.takeWhile_eq_self_iff.mpr hf).symm,rfl⟩
  · have hn := (hconv.proper before f ⟨after,by simp⟩).1
    obtain ⟨⟨hcl,-⟩,-⟩ | ⟨v,hv,hcl⟩ :=
      received_first false hc (Nat.le_of_succ_le hturns) hb
    · exact absurd hcl hn
    · obtain ⟨os,off,more,rfl,hco,hov,hs⟩ := over_of_violates hconv hunf hv
      have hf := fits_of_clean hc
      rw [hs] at hf hcl
      rw [hcl.messages,hcl.terminalCode,hco,List.map_append,List.map_cons,
        List.takeWhile_append_of_pos hf,List.takeWhile_cons_of_neg (by simp [hov])]
      simp [hov]

/-- Blocks that are stored. -/
def stored : ℕ → Bytes → Option (List Block)
  | _,[] => some []
  | fuel+1,final::low::high::notLow::notHigh::rest =>
    let length := low.toNat+256*high.toNat
    if final≤1 ∧ notLow = ~~~low ∧ notHigh = ~~~high ∧ length≤rest.length then
      (stored fuel (rest.drop length)).map (⟨final=1,rest.take length⟩ :: ·)
    else none
  | _,_ => none

/-- The octet 65 in a stored block, which is the final one or not, before an empty one. -/
def storedOffer (final : UInt8) : Offer where
  message := .binary [65]
  group := [compressedFrame [final,1,0,0xFE,0xFF,65,0] (by decide : 7<126)]
  blocks := [⟨final=1,[65]⟩,⟨false,[]⟩]

def storedOffers (final : UInt8) : List Offer := [storedOffer final,storedOffer 0]

def storedRun (final : UInt8) : Reader (Option Bytes) :=
  received {deflate:=true} (zlibObject fun _ => stored 9) {limit:=20,window:=1} id
    ((storedOffers final).flatMap Offer.group) false 9

theorem storedOffers_prefix {final : UInt8} {b : List Offer} {x : Offer}
    (h : b++[x] <+: storedOffers final) :
    b=[] ∧ x=storedOffer final ∨ b=[storedOffer final] ∧ x=storedOffer 0 := by
  rcases b with _ | ⟨y,_ | ⟨z,b⟩⟩
  · simpa [storedOffers] using h
  · simpa [storedOffers] using h
  · simp [storedOffers] at h

theorem stored_conversation {final : UInt8} (h : final=0 ∨ final=1) :
    Conversation {deflate:=true} (fun _ => stored 9) {limit:=20,window:=1} id
      ((storedOffers final).flatMap Offer.group) (storedOffers final) := by
  have hc : Clean {deflate:=true} (zlibObject fun _ => stored 9) {limit:=20,window:=1} id
      ((storedOffers final).flatMap Offer.group) := by
    refine (clean_concat [_] _).mpr ⟨(clean_concat [] _).mpr ⟨clean_nil,?_⟩,?_⟩
    all_goals rcases h with rfl | rfl <;> decide +kernel
  have hs {l : UInt8} (hl : l=0 ∨ l=1) (w : Bytes) : (storedOffer l).Holds (fun _ => stored 9) w :=
    ⟨rfl,by rcases hl with rfl | rfl <;> rfl⟩
  refine ⟨fun b f ⟨a,h⟩ => ?_,rfl,rfl,fun b x hp => ?_⟩
  · obtain ⟨ho,hn⟩ := hc b f a (by simp [← h])
    exact ⟨ho,fun v hv => absurd hv (hn v)⟩
  · rcases storedOffers_prefix hp with ⟨-,rfl⟩ | ⟨-,rfl⟩
    · exact hs h _
    · exact hs (.inl rfl) _

theorem messages_inflated_stored : (storedRun 0).messages=[.binary [65],.binary [65]] := by
  refine (messages_inflated _ _ _ _ _ _ 9 (by decide) (stored_conversation (.inl rfl))
    ⟨fun b x hp => ?_,?_⟩).1.trans (by decide +kernel)
  · rcases storedOffers_prefix hp with ⟨rfl,rfl⟩ | ⟨rfl,rfl⟩ <;> simp [past,storedOffer]
  · simp [storedOffers,storedOffer]

/-- After a message with a final block, the next one is given as empty. -/
theorem message_after_final_lost :
    Conversation {deflate:=true} (fun _ => stored 9) {limit:=20,window:=1} id
      ((storedOffers 1).flatMap Offer.group) (storedOffers 1) ∧
    (storedRun 1).messages=[.binary [65],.binary []] :=
  ⟨stored_conversation (.inr rfl),by decide +kernel⟩

end BlackBull.WebSocket.Inflation
