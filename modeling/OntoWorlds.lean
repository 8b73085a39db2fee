import OntoWorlds.Main
import OntoWorlds.Ontology.Construction
import OntoWorlds.RunScope.Document
import OntoWorlds.Proofs.Registry.Answers
import OntoWorlds.Proofs.Module.Capture
import OntoWorlds.Proofs.Module.Identifiers
import OntoWorlds.Proofs.Module.References
import OntoWorlds.Proofs.Module.Columns
import OntoWorlds.Proofs.Module.Subsumption
import OntoWorlds.Proofs.Module.Accessors
import OntoWorlds.Proofs.Module.Derivation
import OntoWorlds.Proofs.Module.Multiplicities
import OntoWorlds.Proofs.Module.Inventory
import OntoWorlds.Proofs.Encoding.Defects
import OntoWorlds.Proofs.Encoding.Renaming
import OntoWorlds.Proofs.Ontology.Layout
import OntoWorlds.Proofs.Encoding.Failure
import OntoWorlds.Proofs.Module.Arity
import OntoWorlds.Proofs.Module.Printing
import OntoWorlds.Proofs.Module.Builtins
import OntoWorlds.Proofs.Encoding.Preemption
import OntoWorlds.Proofs.Encoding.Insertion
import OntoWorlds.Proofs.Module.Wording
import OntoWorlds.Proofs.Ontology.Additions
import OntoWorlds.Proofs.Module.Partition
import OntoWorlds.Proofs.Module.Ends
import OntoWorlds.Proofs.Encoding.Turns
import OntoWorlds.Proofs.Registry.Counting
import OntoWorlds.Proofs.Multiplicity.Grammar
import OntoWorlds.Proofs.Module.Contradictions
import OntoWorlds.Proofs.Ontology.FreshIds
