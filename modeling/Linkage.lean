import Linkage.Json.Members
import Linkage.Registry.Session
import Linkage.Text.Utf8Prefix
import Linkage.Proofs.Text.Utf8Prefix
import Linkage.Proofs.Ty.Spelling
import Linkage.Proofs.Ty.PrefixFree
import Linkage.Proofs.Ty.Refusal
import Linkage.Proofs.Ty.Runtime
import Linkage.Proofs.Ty.ClassNames
import Linkage.Proofs.Signature.Reading
import Linkage.Proofs.Signature.Refusal
import Linkage.Proofs.Signature.Completion
import Linkage.Proofs.Signature.Matching
import Linkage.Proofs.Registry.Roster
import Linkage.Proofs.Registry.Journal
import Linkage.Proofs.Member.Reference
import Linkage.Proofs.Member.Origins
import Linkage.Proofs.Member.Distinct
import Linkage.Proofs.Member.Host
import Linkage.Proofs.Member.BinaryName
import Linkage.Proofs.Json.Reload
import Linkage.Proofs.Declaration.Names
import Linkage.Proofs.Declaration.Agreement
import Linkage.Proofs.Declaration.Grammar
import Linkage.Proofs.Declaration.Language
import Linkage.Proofs.Member.Refusal
import Linkage.Proofs.Signature.Attribution
import Linkage.Proofs.Json.Spellings
import Linkage.Proofs.Ty.Notations
import Linkage.Proofs.Text.Offsets
import Linkage.Proofs.Ty.Offsets
import Linkage.Proofs.Declaration.Offsets
import Linkage.Proofs.Signature.ConsumedText
